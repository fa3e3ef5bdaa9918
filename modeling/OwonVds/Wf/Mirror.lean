import OwonVds.Wf.Change

/-!
# The device mirrors the channel

`Mirrors` says that what was submitted last is the channel's own value for all five settings. Every operation that
commits what it sets keeps `Mirrors` (`mirrors_perform`): it changes fields, and submits each changed one. The case
with an argument is `c_setVoltage`, for the band limit is a function of the scale (`isBandlimit`) and is submitted only
when the scale comes to index 0 or leaves it (`forceOnChange_bandLimit`).
-/

namespace OwonVds.Wf

open OwonVds.Exec

variable {env : Env}

/-- The device has the channel's settings. -/
structure Mirrors (s : ChannelInfo) : Prop where
  onOff : s.lastSubmitted .onOff = some (bit s.on)
  coupling : s.lastSubmitted .coupling = some s.couplingIdx
  vb : s.lastSubmitted .vb = some s.vbIdx
  pos0 : s.lastSubmitted .pos0 = some s.pos0
  bandLimit : s.lastSubmitted .bandLimit = some (bit s.isBandlimit)

/-- The channel's own value of a setting. -/
def ChannelInfo.setting (s : ChannelInfo) : PChannel → Int
  | .onOff => bit s.on
  | .coupling => s.couplingIdx
  | .vb => s.vbIdx
  | .pos0 => s.pos0
  | .bandLimit => bit s.isBandlimit

@[simp] theorem sent_setting (s : ChannelInfo) (p q : PChannel) (v : Int) : (s.sent p v).setting q = s.setting q := by
  cases q <;> rfl

theorem mirrors_iff {s : ChannelInfo} : Mirrors s ↔ ∀ p, s.lastSubmitted p = some (s.setting p) := by
  constructor
  · intro h p
    cases p with
    | onOff => exact h.onOff
    | coupling => exact h.coupling
    | vb => exact h.vb
    | pos0 => exact h.pos0
    | bandLimit => exact h.bandLimit
  · intro h
    exact ⟨h .onOff, h .coupling, h .vb, h .pos0, h .bandLimit⟩

/-- The submission of the one setting that the device may not have. -/
theorem mirrors_sent {t : ChannelInfo} (p : PChannel) (h : ∀ q, q ≠ p → t.lastSubmitted q = some (t.setting q)) :
    Mirrors (t.sent p (t.setting p)) := by
  rw [mirrors_iff]
  intro q
  rw [sent_setting]
  by_cases hq : q = p
  · rw [hq, lastSubmitted_sent_self]
  · rw [lastSubmitted_sent_of_ne t _ (Ne.symm hq), h q hq]

/-- A change of one setting and its submission. -/
theorem Mirrors.resubmit {s t : ChannelInfo} (hs : Mirrors s) (p : PChannel) (hsub : t.submitted = s.submitted)
    (hset : ∀ q, q ≠ p → t.setting q = s.setting q) : Mirrors (t.sent p (t.setting p)) := by
  apply mirrors_sent
  intro q hq
  have hlast : t.lastSubmitted q = s.lastSubmitted q := by
    unfold ChannelInfo.lastSubmitted
    rw [hsub]
  rw [hlast, hset q hq]
  exact mirrors_iff.1 hs q

theorem Rezeroed.setting {s t : ChannelInfo} (h : Rezeroed s t) {p : PChannel} (hp : p ≠ .pos0) :
    t.setting p = s.setting p := by
  cases p with
  | onOff => exact congrArg bit h.on
  | coupling => exact h.couplingIdx
  | vb => exact h.vbIdx
  | pos0 => exact absurd rfl hp
  | bandLimit =>
    show bit t.isBandlimit = bit s.isBandlimit
    rw [isBandlimit_eq, isBandlimit_eq, h.vbIdx, h.bandlimit]

/-- A move of the zero position. -/
theorem Rezeroed.mirrors {s t : ChannelInfo} (h : Rezeroed s t) (hs : Mirrors s) : Mirrors t := by
  rw [mirrors_iff]
  intro p
  by_cases hp : p = .pos0
  · rw [hp]
    exact h.pos0 hs.pos0
  · rw [h.others p hp, h.setting hp]
    exact mirrors_iff.1 hs p

/-- **The band limit follows the scale**: whatever the scale was, the device has the band limit of the new one. -/
theorem forceOnChange_bandLimit {vb0 vbidx : Int} {s t : ChannelInfo} (hvb : s.vbIdx = vbidx)
    (h0 : vb0 ≠ 0 → s.lastSubmitted .bandLimit = some (bit s.bandlimit)) (h : forceOnChange vb0 vbidx s = .ok () t) :
    t.lastSubmitted .bandLimit = some (bit t.isBandlimit) := by
  rw [forceOnChange_run] at h
  cases h
  split_ifs with h1 h2
  · rw [lastSubmitted_sent_self, sent_isBandlimit, isBandlimit_of_eq (hvb.trans h1)]
    rfl
  · rw [lastSubmitted_sent_self, sent_isBandlimit]
  · rw [h0 h2, isBandlimit_of_ne (hvb ▸ h1)]

/-- `c_setVoltage` at a valid index keeps the device at the channel's settings. -/
theorem changeVoltage_mirrors (calls : Nat) {change : Int} {s : ChannelInfo} (hs : Mirrors s)
    (h : 0 ≤ change) (h' : change < env.vp.voltageNumber) :
    ∃ t, changeVoltage env calls change s = .ok () t ∧ Mirrors t ∧ t.bandlimit = s.bandlimit := by
  obtain ⟨u, hu, hz, -⟩ := setVoltbaseIndex_rezeroed calls s h h'
  obtain ⟨l, hw, hrun⟩ := changeVoltage_run hu
  refine ⟨_, hrun, ?_, hz.bandlimit⟩
  have hlast := (forceOnChange_frame hw).2
  have hband := forceOnChange_bandLimit hz.vbIdx (fun h0 => by
    have hu : u.lastSubmitted .bandLimit = s.lastSubmitted .bandLimit := hz.others .bandLimit (by decide)
    rw [hu, hs.bandLimit, isBandlimit_of_ne h0, hz.bandlimit]
    rfl) hw
  -- the scale is submitted last; what the device has of the other settings is the new channel's
  refine mirrors_sent (t := { u with submitted := l }) .vb fun q hq => ?_
  cases q with
  | onOff =>
    rw [hlast _ (by decide), hz.others _ (by decide)]
    exact hs.onOff.trans (congrArg some (hz.setting (p := .onOff) (by decide)).symm)
  | coupling =>
    rw [hlast _ (by decide), hz.others _ (by decide)]
    exact hs.coupling.trans (congrArg some hz.couplingIdx.symm)
  | vb => exact absurd rfl hq
  | pos0 =>
    rw [hlast _ (by decide)]
    exact hz.pos0 hs.pos0
  | bandLimit => exact hband

/-! ## The operations -/

/-- The operations that submit what they set: `c_setZero` with `commit`, and those of the other settings. -/
def Op.Mirrored : Op → Prop
  | .setZero _ commit => commit = true
  | .setNextProbeMultiIdx => False
  | _ => True

/-- The user's own band limit after an operation. -/
def Op.userBandlimit (b : Bool) : Op → Bool
  | .setBandLimit bl => bl
  | _ => b

/-- What a channel that is on submits, in the order of the source. -/
def ChannelInfo.synced (s : ChannelInfo) : ChannelInfo :=
  ((((s.sent .onOff 1).sent .coupling s.couplingIdx).sent .vb s.vbIdx).sent .pos0 s.pos0).sent .bandLimit
    (bit s.isBandlimit)

theorem cSetOn_run (on : Bool) (s : ChannelInfo) (hd : env.dataHouse = true) :
    cSetOn env on s = .ok () (if on then ChannelInfo.synced { s with on := true }
      else ChannelInfo.sent { s with on := false } .onOff 0) := by
  unfold cSetOn
  rw [if_pos hd]
  cases on <;> rfl

/-- A channel that is on submits all its settings. -/
theorem synced_mirrors {s : ChannelInfo} (h : s.on = true) : Mirrors s.synced := by
  rw [mirrors_iff]
  intro p
  simp only [ChannelInfo.synced, sent_setting]
  cases p with
  | onOff => simp [ChannelInfo.setting, h, bit]
  | coupling => simp [ChannelInfo.setting]
  | vb => simp [ChannelInfo.setting]
  | pos0 => simp [ChannelInfo.setting]
  | bandLimit => simp [ChannelInfo.setting]

theorem cSetOn_mirrors (on : Bool) {s : ChannelInfo} (hs : Mirrors s) (hd : env.dataHouse = true) :
    ∃ t, cSetOn env on s = .ok () t ∧ Mirrors t ∧ t.bandlimit = s.bandlimit := by
  refine ⟨_, cSetOn_run on s hd, ?_, by cases on <;> rfl⟩
  cases on with
  | true => exact synced_mirrors rfl
  | false =>
    refine hs.resubmit (t := { s with on := false }) .onOff rfl fun q hq => ?_
    cases q <;> first | rfl | exact absurd rfl hq

theorem cSetBandLimit_mirrors (bl : Bool) {s : ChannelInfo} (hs : Mirrors s) :
    ∃ t, cSetBandLimit bl s = .ok () t ∧ Mirrors t ∧ t.bandlimit = bl := by
  refine ⟨_, rfl, hs.resubmit (t := { s with bandlimit := bl }) .bandLimit rfl fun q hq => ?_, rfl⟩
  cases q <;> first | rfl | exact absurd rfl hq

theorem cSetCoupling_mirrors (coupling : Int) {s : ChannelInfo} (hs : Mirrors s) :
    ∃ t, cSetCoupling coupling s = .ok () t ∧ Mirrors t ∧ t.bandlimit = s.bandlimit := by
  refine ⟨_, rfl, hs.resubmit (t := { s with couplingIdx := coupling }) .coupling rfl fun q hq => ?_, rfl⟩
  cases q <;> first | rfl | exact absurd rfl hq

theorem cSetZero_mirrors (zero : Int) {s : ChannelInfo} (hs : Mirrors s) :
    ∃ t, cSetZero zero true s = .ok () t ∧ Mirrors t ∧ t.bandlimit = s.bandlimit := by
  obtain ⟨t, ht, hz, -⟩ := cSetZero_rezeroed zero s
  exact ⟨t, ht, hz.mirrors hs, hz.bandlimit⟩

/-- There is a data house, which `c_setOn` needs, and a scale, which `c_setVoltage` needs. -/
def Ready (env : Env) : Prop := 0 < env.vp.voltageNumber ∧ env.dataHouse = true

/-- `c_setVoltage` without any scale: it returns, or throws. -/
theorem cSetVoltage_of_no_scale (calls : Nat) (idx : Int) (s : ChannelInfo) (h : env.vp.voltageNumber = 0) :
    cSetVoltage env calls idx s = .ok () s ∨ ∃ e t, cSetVoltage env calls idx s = .error e t := by
  by_cases hi : 0 ≤ idx
  · have hv : getValidVotageChangeIndex env.vp idx < 0 := by
      unfold getValidVotageChangeIndex
      rw [if_pos (by omega)]
      omega
    left
    unfold cSetVoltage
    rw [if_pos hv]
    rfl
  · have hv : getValidVotageChangeIndex env.vp idx = 0 := by
      unfold getValidVotageChangeIndex
      rw [if_neg (by omega), if_pos (by omega)]
    right
    refine ⟨.arrayIndexOutOfBounds, { s with vbIdx := 0 }, ?_⟩
    unfold cSetVoltage changeVoltage
    rw [hv, if_neg (by omega), get_bind, bind_of_error (setVoltbaseIndex_throws (by rw [h]; rfl))]

theorem cSetVoltage_mirrors (calls : Nat) (idx : Int) {s : ChannelInfo} (hs : Mirrors s)
    (h : 0 < env.vp.voltageNumber) :
    ∃ t, cSetVoltage env calls idx s = .ok () t ∧ Mirrors t ∧ t.bandlimit = s.bandlimit := by
  obtain ⟨h1, h2⟩ := getValidVotageChangeIndex_range h idx
  obtain ⟨t, ht, hm⟩ := changeVoltage_mirrors calls hs h1 h2
  exact ⟨t, (cSetVoltage_run calls idx s h).trans ht, hm⟩

/-- **One operation** keeps the device at the channel's settings, or throws. -/
theorem mirrors_perform (env : Env) {op : Op} {s : ChannelInfo} (hop : op.Mirrored) (hs : Mirrors s) :
    (∃ t, perform env op s = .ok () t ∧ Mirrors t ∧ t.bandlimit = op.userBandlimit s.bandlimit) ∨
      (∃ e t, perform env op s = .error e t) ∧ ¬ Ready env := by
  cases op with
  | setOn on =>
    cases hd : env.dataHouse with
    | true => exact .inl (cSetOn_mirrors on hs hd)
    | false =>
      refine .inr ⟨⟨.nullPointer, s, ?_⟩, fun he => ?_⟩
      · show cSetOn env on s = _
        unfold cSetOn
        rw [hd]
        rfl
      · rw [he.2] at hd
        cases hd
  | setVoltage idx calls =>
    rcases Nat.eq_zero_or_pos env.vp.voltageNumber with h | h
    · rcases cSetVoltage_of_no_scale calls idx s h with h' | h'
      · exact .inl ⟨s, h', hs, rfl⟩
      · exact .inr ⟨h', fun he => by have := he.1; omega⟩
    · exact .inl (cSetVoltage_mirrors calls idx hs h)
  | setBandLimit bl => exact .inl (cSetBandLimit_mirrors bl hs)
  | setCoupling coupling => exact .inl (cSetCoupling_mirrors coupling hs)
  | setNextCoupling => exact .inl (cSetCoupling_mirrors _ hs)
  | setZero zero commit =>
    cases (hop : commit = true)
    exact .inl (cSetZero_mirrors zero hs)
  | setNextProbeMultiIdx => exact absurd hop id

/-- **Every sequence of operations** keeps the device at the channel's settings, and its band limit is the user's own
unless the scale is at index 0. Where there is a scale and a data house the sequence comes to its end. -/
theorem mirrors_performAll {ops : List Op} {s : ChannelInfo} (hs : Mirrors s) (hops : ∀ op ∈ ops, op.Mirrored) :
    (∀ t, performAll env ops s = .ok () t → Mirrors t ∧
      t.lastSubmitted .bandLimit = some (bit (t.vbIdx == 0 || ops.foldl Op.userBandlimit s.bandlimit))) ∧
    (Ready env → ∃ t, performAll env ops s = .ok () t) := by
  induction ops generalizing s with
  | nil =>
    refine ⟨fun t ht => ?_, fun _ => ⟨s, rfl⟩⟩
    cases (ht : EStateM.Result.ok () s = .ok () t)
    refine ⟨hs, ?_⟩
    rw [List.foldl_nil, ← isBandlimit_eq]
    exact hs.bandLimit
  | cons op ops ih =>
    have hop := hops op List.mem_cons_self
    have hrest := fun op' h' => hops op' (List.mem_cons_of_mem op h')
    unfold performAll
    rcases mirrors_perform env hop hs with ⟨u, hu, hm, hb⟩ | ⟨⟨e, u, hu⟩, hready⟩
    · rw [bind_of_ok hu, List.foldl_cons, ← hb]
      exact ih hm hrest
    · rw [bind_of_error hu]
      exact ⟨fun t ht => (by cases ht), fun he => absurd he hready⟩

/-- The limit the user sets while it is forced is the device's once the scale has left index 0. -/
theorem mirrors_performAll_forced :
    let env : Env := ⟨threeScales, true⟩
    let s := (ChannelInfo.new 0).synced
    let ops : List Op := [.setOn true, .setVoltage 2 1, .setBandLimit true, .setVoltage (-4) 1, .setBandLimit false,
      .setZero 9000 true, .setVoltage 7 1, .setOn false, .setCoupling 2]
    Mirrors { s with on := true } ∧ (∀ op ∈ ops, op.Mirrored) ∧
      ∃ t, performAll env ops { s with on := true } = .ok () t ∧ Mirrors t ∧
        t.lastSubmitted .bandLimit = some (bit (t.vbIdx == 0 || false)) := by
  have hs : Mirrors { (ChannelInfo.new 0).synced with on := true } := by
    constructor <;> decide
  have hops : ∀ op ∈ [.setOn true, .setVoltage 2 1, .setBandLimit true, .setVoltage (-4) 1, .setBandLimit false,
      .setZero 9000 true, .setVoltage 7 1, .setOn false, .setCoupling 2], Op.Mirrored op := by
    simp [Op.Mirrored]
  obtain ⟨hall, hend⟩ := @mirrors_performAll ⟨threeScales, true⟩ _ _ hs hops
  obtain ⟨t, ht⟩ := hend ⟨by decide, rfl⟩
  exact ⟨hs, hops, t, ht, hall t ht⟩

end OwonVds.Wf
