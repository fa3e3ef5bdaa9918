import OwonVds.Wf.Channel

/-!
# What the operations of a channel do

`lastSubmitted` is the value of a setting at the device: the last one submitted for the channel. `c_setZero`, and so
`setZeroYLoc`, moves the zero position only (`Rezeroed`); `setVoltbaseIndex` moves the scale and with it the zero
position (`setVoltbaseIndex_rezeroed`), and what comes after it in `c_setVoltage` only submits (`changeVoltage_run`).
-/

namespace OwonVds.Wf

open OwonVds.Exec

/-! ## What was submitted last -/

/-- The last value submitted for a setting. -/
def ChannelInfo.lastSubmitted (s : ChannelInfo) (p : PChannel) : Option Int :=
  s.submitted.foldl (fun last q => if q.1 = p then some q.2 else last) none

/-- The channel after a submission. -/
def ChannelInfo.sent (s : ChannelInfo) (p : PChannel) (v : Int) : ChannelInfo :=
  { s with submitted := s.submitted ++ [(p, v)] }

theorem lastSubmitted_sent (s : ChannelInfo) (p q : PChannel) (v : Int) :
    (s.sent p v).lastSubmitted q = if p = q then some v else s.lastSubmitted q := by
  simp only [ChannelInfo.lastSubmitted, ChannelInfo.sent, List.foldl_append, List.foldl_cons, List.foldl_nil]

@[simp] theorem lastSubmitted_sent_self (s : ChannelInfo) (p : PChannel) (v : Int) :
    (s.sent p v).lastSubmitted p = some v := by
  rw [lastSubmitted_sent, if_pos rfl]

@[simp] theorem lastSubmitted_sent_of_ne {p q : PChannel} (s : ChannelInfo) (v : Int) (h : p ≠ q) :
    (s.sent p v).lastSubmitted q = s.lastSubmitted q := by
  rw [lastSubmitted_sent, if_neg h]

@[simp] theorem sent_isBandlimit (s : ChannelInfo) (p : PChannel) (v : Int) :
    (s.sent p v).isBandlimit = s.isBandlimit := rfl

theorem isBandlimit_eq (s : ChannelInfo) : s.isBandlimit = (s.vbIdx == 0 || s.bandlimit) := by
  unfold ChannelInfo.isBandlimit ChannelInfo.isForcebandlimit shouldForcebandlimit
  cases s.vbIdx == 0 <;> rfl

theorem isBandlimit_of_ne {s : ChannelInfo} (h : s.vbIdx ≠ 0) : s.isBandlimit = s.bandlimit := by
  rw [isBandlimit_eq, beq_false_of_ne h, Bool.false_or]

theorem isBandlimit_of_eq {s : ChannelInfo} (h : s.vbIdx = 0) : s.isBandlimit = true := by
  rw [isBandlimit_eq, h]
  rfl

/-! ## The zero position -/

/-- The channel after `c_setZero`, without the submission. -/
def ChannelInfo.zeroed (s : ChannelInfo) (zero : Int) (commit : Bool) : ChannelInfo :=
  let p := clampZero s.pos0HalfRange zero
  { s with pos0 := p, displacements := s.displacements ++ [(wrap (p - s.pos0), commit)] }

theorem cSetZero_run (zero : Int) (commit : Bool) (s : ChannelInfo) :
    cSetZero zero commit s =
      .ok () (if commit then (s.zeroed zero commit).sent .pos0 (clampZero s.pos0HalfRange zero)
        else s.zeroed zero commit) := by
  cases commit <;> rfl

/-- From `s` to `t` only the zero position moved, and the device knows where to. -/
structure Rezeroed (s t : ChannelInfo) : Prop where
  on : t.on = s.on
  couplingIdx : t.couplingIdx = s.couplingIdx
  vbIdx : t.vbIdx = s.vbIdx
  bandlimit : t.bandlimit = s.bandlimit
  probeMultiIdx : t.probeMultiIdx = s.probeMultiIdx
  pos0HalfRange : t.pos0HalfRange = s.pos0HalfRange
  others : ∀ p, p ≠ .pos0 → t.lastSubmitted p = s.lastSubmitted p
  pos0 : s.lastSubmitted .pos0 = some s.pos0 → t.lastSubmitted .pos0 = some t.pos0

theorem Rezeroed.refl (s : ChannelInfo) : Rezeroed s s := by
  constructor <;> intros <;> first | rfl | assumption

theorem Rezeroed.trans {s t u : ChannelInfo} (h : Rezeroed s t) (h' : Rezeroed t u) : Rezeroed s u where
  on := h'.on.trans h.on
  couplingIdx := h'.couplingIdx.trans h.couplingIdx
  vbIdx := h'.vbIdx.trans h.vbIdx
  bandlimit := h'.bandlimit.trans h.bandlimit
  probeMultiIdx := h'.probeMultiIdx.trans h.probeMultiIdx
  pos0HalfRange := h'.pos0HalfRange.trans h.pos0HalfRange
  others := fun p hp => (h'.others p hp).trans (h.others p hp)
  pos0 := fun hs => h'.pos0 (h.pos0 hs)

/-- `c_setZero` with `commit` moves the zero position only, into the half range. -/
theorem cSetZero_rezeroed (zero : Int) (s : ChannelInfo) :
    ∃ t, cSetZero zero true s = .ok () t ∧ Rezeroed s t ∧ t.pos0 = clampZero s.pos0HalfRange zero := by
  refine ⟨_, cSetZero_run zero true s, ?_, rfl⟩
  constructor
  · rfl
  · rfl
  · rfl
  · rfl
  · rfl
  · rfl
  · intro p hp
    exact lastSubmitted_sent_of_ne (s.zeroed zero true) _ (Ne.symm hp)
  · intro _
    exact lastSubmitted_sent_self (s.zeroed zero true) .pos0 _

/-- However often `setZeroYLoc` comes back to the channel, only the zero position moves, and once is enough. -/
theorem setZeroYLoc_rezeroed (z : Int) (n : Nat) (s : ChannelInfo) :
    ∃ t, setZeroYLoc z n s = .ok () t ∧ Rezeroed s t ∧
      t.pos0 = if n = 0 then s.pos0 else clampZero s.pos0HalfRange z := by
  induction n generalizing s with
  | zero => exact ⟨s, rfl, Rezeroed.refl s, rfl⟩
  | succ n ih =>
    obtain ⟨t, ht, hst, hpos⟩ := cSetZero_rezeroed z s
    obtain ⟨u, hu, htu, hpos'⟩ := ih t
    refine ⟨u, ?_, hst.trans htu, ?_⟩
    · rw [setZeroYLoc, bind_of_ok ht]
      exact hu
    · rw [if_neg (Nat.succ_ne_zero n), hpos', hpos, hst.pos0HalfRange]
      split <;> rfl

/-! ## The scale -/

variable {env : Env}

theorem index_eq_some {length : Nat} {i : Int} {k : Nat} :
    index length i = some k ↔ 0 ≤ i ∧ i < length ∧ k = i.toNat := by
  unfold index
  split_ifs with h
  · rw [Option.some_inj]
    constructor
    · rintro rfl; exact ⟨h.1, h.2, rfl⟩
    · rintro ⟨-, -, rfl⟩; rfl
  · constructor
    · intro h'; cases h'
    · rintro ⟨h1, h2, -⟩; exact absurd ⟨h1, h2⟩ h

theorem index_of_range {length : Nat} {i : Int} (h : 0 ≤ i) (h' : i < length) :
    index length i = some i.toNat := index_eq_some.2 ⟨h, h', rfl⟩

/-- The channel at another scale. -/
def ChannelInfo.scaled (s : ChannelInfo) (vp : VoltageProvider) (vbIdx : Int) : ChannelInfo :=
  { s with vbIdx := vbIdx, pos0HalfRange := vp.getPos0HalfRange (vp.getVoltage 0 vbIdx.toNat) }

/-- `setVoltbaseIndex` at a valid index is `setZeroYLoc` at the new scale, or nothing more. -/
theorem setVoltbaseIndex_run {calls : Nat} {vbIdx : Int} {r f : Bool} {s : ChannelInfo}
    (h : 0 ≤ vbIdx) (h' : vbIdx < env.vp.voltageNumber) :
    setVoltbaseIndex env calls vbIdx r f s =
      if !r || !env.dataHouse || f then .ok () (s.scaled env.vp vbIdx)
      else setZeroYLoc s.pos0 calls (s.scaled env.vp vbIdx) := by
  unfold setVoltbaseIndex
  rw [modify_bind, index_of_range h h']
  show (if _ then pure () else setZeroYLoc s.pos0 calls) (s.scaled env.vp vbIdx) = _
  split <;> rfl

/-- On the first load the zero position stays. -/
theorem setVoltbaseIndex_firstload {vbIdx : Int} (calls : Nat) (s : ChannelInfo)
    (h : 0 ≤ vbIdx) (h' : vbIdx < env.vp.voltageNumber) :
    setVoltbaseIndex env calls vbIdx true true s = .ok () (s.scaled env.vp vbIdx) := by
  rw [setVoltbaseIndex_run h h', Bool.or_true, if_pos rfl]

theorem setVoltbaseIndex_throws {calls : Nat} {vbIdx : Int} {r f : Bool} {s : ChannelInfo}
    (h : index env.vp.voltageNumber vbIdx = none) :
    setVoltbaseIndex env calls vbIdx r f s = .error .arrayIndexOutOfBounds { s with vbIdx := vbIdx } := by
  unfold setVoltbaseIndex
  rw [modify_bind, h]
  rfl

/-- `setVoltbaseIndex` at a valid index: only the scale and the zero position move, and with a data house the zero
position is restricted to the half range of the new scale. -/
theorem setVoltbaseIndex_rezeroed {vbIdx : Int} (calls : Nat) (s : ChannelInfo)
    (h : 0 ≤ vbIdx) (h' : vbIdx < env.vp.voltageNumber) :
    ∃ t, setVoltbaseIndex env calls vbIdx true false s = .ok () t ∧ Rezeroed (s.scaled env.vp vbIdx) t ∧
      t.pos0 = if env.dataHouse = false ∨ calls = 0 then s.pos0
        else clampZero (s.scaled env.vp vbIdx).pos0HalfRange s.pos0 := by
  rw [setVoltbaseIndex_run h h']
  cases hd : env.dataHouse with
  | false => exact ⟨_, rfl, Rezeroed.refl _, rfl⟩
  | true =>
    obtain ⟨t, ht, hz, hpos⟩ := setZeroYLoc_rezeroed s.pos0 calls (s.scaled env.vp vbIdx)
    refine ⟨t, ht, hz, hpos.trans ?_⟩
    simp only [Bool.true_eq_false, false_or]
    rfl

/-- The valid index is one, when there is one. -/
theorem getValidVotageChangeIndex_range {vp : VoltageProvider} (h : 0 < vp.voltageNumber) (idx : Int) :
    0 ≤ getValidVotageChangeIndex vp idx ∧ getValidVotageChangeIndex vp idx < vp.voltageNumber := by
  unfold getValidVotageChangeIndex
  split_ifs <;> omega

/-- What `c_setVoltage` submits of the band limit when it goes from `vb0` to another scale. -/
theorem forceOnChange_run (vb0 vbidx : Int) (s : ChannelInfo) :
    forceOnChange vb0 vbidx s =
      .ok () (if vbidx = 0 then s.sent .bandLimit 1
        else if vb0 = 0 then s.sent .bandLimit (bit s.isBandlimit) else s) := by
  unfold forceOnChange shouldForcebandlimit cForceBandLimit
  rw [get_bind]
  simp only [beq_iff_eq]
  split_ifs <;> rfl

/-- `forceOnChange` only submits, and only the band limit. -/
theorem forceOnChange_frame {vb0 vbidx : Int} {s t : ChannelInfo} (h : forceOnChange vb0 vbidx s = .ok () t) :
    (∃ l, t = { s with submitted := l }) ∧ ∀ p, p ≠ .bandLimit → t.lastSubmitted p = s.lastSubmitted p := by
  rw [forceOnChange_run] at h
  cases h
  split_ifs
  · exact ⟨⟨_, rfl⟩, fun p hp => lastSubmitted_sent_of_ne s _ (Ne.symm hp)⟩
  · exact ⟨⟨_, rfl⟩, fun p hp => lastSubmitted_sent_of_ne s _ (Ne.symm hp)⟩
  · exact ⟨⟨_, rfl⟩, fun p hp => rfl⟩

/-- `c_setVoltage` at a valid index: the scale, the band limit, and the submission of the scale. -/
theorem changeVoltage_run {calls : Nat} {change : Int} {s u : ChannelInfo}
    (hu : setVoltbaseIndex env calls change true false s = .ok () u) :
    ∃ l, forceOnChange s.vbIdx change u = .ok () { u with submitted := l } ∧
      changeVoltage env calls change s = .ok () (ChannelInfo.sent { u with submitted := l } .vb u.vbIdx) := by
  obtain ⟨w, hw⟩ : ∃ w, forceOnChange s.vbIdx change u = .ok () w := ⟨_, forceOnChange_run _ _ _⟩
  obtain ⟨⟨l, rfl⟩, -⟩ := forceOnChange_frame hw
  refine ⟨l, hw, ?_⟩
  unfold changeVoltage
  rw [get_bind, bind_of_ok hu, bind_of_ok hw]
  rfl

theorem cSetVoltage_run (calls : Nat) (idx : Int) (s : ChannelInfo) (h : 0 < env.vp.voltageNumber) :
    cSetVoltage env calls idx s = changeVoltage env calls (getValidVotageChangeIndex env.vp idx) s := by
  have hr := getValidVotageChangeIndex_range h idx
  have hneg : ¬ getValidVotageChangeIndex env.vp idx < 0 := by omega
  unfold cSetVoltage
  rw [if_neg hneg]

end OwonVds.Wf
