import OwonVds.Wf.Change

/-!
# The ranges of a channel's settings

`InRange` says that the indices of a channel are valid and that the zero position is in the half range of the current
scale. The operations keep it (`inRange_perform`) where the provider allows it at all (`Provides`): an index is clamped
or stepped modulo a length, and the zero position is restricted again whenever the scale moves. What the operations
cannot mend is the state they start from: `load` repairs the stored scale, and takes the stored probe factor, coupling
and zero position as they are. `loadsInRange_iff` says which preferences (`Valid`) lead to a channel in range.
-/

namespace OwonVds.Wf

open OwonVds.Exec

/-- The half range of the zero position at a scale. -/
def VoltageProvider.halfRangeAt (vp : VoltageProvider) (i : Nat) : Int := vp.getPos0HalfRange (vp.getVoltage 0 i)

/-- The settings of a channel are in range. -/
structure InRange (env : Env) (s : ChannelInfo) : Prop where
  vbIdx : 0 ≤ s.vbIdx ∧ s.vbIdx < env.vp.voltageNumber
  probeMultiIdx : 0 ≤ s.probeMultiIdx ∧ s.probeMultiIdx < env.vp.probeMulties.length
  couplingIdx : 0 ≤ s.couplingIdx ∧ s.couplingIdx < COUPLING.length
  pos0HalfRange : s.pos0HalfRange = env.vp.halfRangeAt s.vbIdx.toNat
  pos0 : -s.pos0HalfRange ≤ s.pos0 ∧ s.pos0 ≤ s.pos0HalfRange

/-- The operations after `load`; `setZeroYLoc` comes back to the channel at least once. -/
def Op.Ranged : Op → Prop
  | .setVoltage _ calls => 1 ≤ calls
  | .setZero _ _ => True
  | .setNextProbeMultiIdx => True
  | .setNextCoupling => True
  | .setBandLimit _ => True
  | _ => False

/-- No half range is negative, and a zero position that is in one of them gets into the others: by the data house,
or because they are the same. -/
structure Provides (env : Env) : Prop where
  nonneg : ∀ i < env.vp.voltageNumber, 0 ≤ env.vp.halfRangeAt i
  restricted : env.dataHouse = true ∨
    ∀ i < env.vp.voltageNumber, ∀ j < env.vp.voltageNumber, env.vp.halfRangeAt i = env.vp.halfRangeAt j

variable {env : Env}

/-! ## Clamping and stepping -/

theorem wrap_neg {hr : Int} (h : IsInt hr) (h0 : 0 ≤ hr) : wrap (-hr) = -hr := by
  obtain ⟨h1, h2⟩ := h
  apply wrap_of_isInt
  constructor <;> omega

theorem clampZero_range {hr : Int} (h : IsInt hr) (h0 : 0 ≤ hr) (z : Int) :
    -hr ≤ clampZero hr z ∧ clampZero hr z ≤ hr := by
  unfold clampZero
  rw [wrap_neg h h0]
  split_ifs <;> omega

theorem clampZero_of_range {hr z : Int} (h : IsInt hr) (h1 : -hr ≤ z) (h2 : z ≤ hr) : clampZero hr z = z := by
  unfold clampZero
  rw [wrap_neg h (by omega)]
  split_ifs <;> omega

/-- The step to the next index of an array stays in the array. -/
theorem next_range {i : Int} {n : Nat} (hn : n < 0x80000000) (h : 0 ≤ i ∧ i < n) :
    0 ≤ (wrap (i + 1)).tmod n ∧ (wrap (i + 1)).tmod n < n := by
  obtain ⟨h0, h1⟩ := h
  have hw : wrap (i + 1) = i + 1 := by
    apply wrap_of_isInt
    constructor <;> omega
  rw [hw]
  constructor
  · apply Int.tmod_nonneg
    omega
  · apply Int.tmod_lt_of_pos
    omega

/-! ## The operations -/

/-- `c_setVoltage` sets the scale and its half range, and with a data house restricts the zero position to it. -/
theorem cSetVoltage_spec {calls : Nat} (hc : 1 ≤ calls) (idx : Int) (s : ChannelInfo)
    (h : 0 < env.vp.voltageNumber) :
    ∃ t, cSetVoltage env calls idx s = .ok () t ∧ t.vbIdx = getValidVotageChangeIndex env.vp idx ∧
      t.pos0HalfRange = env.vp.halfRangeAt t.vbIdx.toNat ∧ t.probeMultiIdx = s.probeMultiIdx ∧
      t.couplingIdx = s.couplingIdx ∧
      t.pos0 = if env.dataHouse = true then clampZero t.pos0HalfRange s.pos0 else s.pos0 := by
  obtain ⟨h1, h2⟩ := getValidVotageChangeIndex_range h idx
  obtain ⟨u, hu, hz, hpos⟩ := setVoltbaseIndex_rezeroed calls s h1 h2
  obtain ⟨l, -, hrun⟩ := changeVoltage_run hu
  refine ⟨_, (cSetVoltage_run calls idx s h).trans hrun, hz.vbIdx, ?_, hz.probeMultiIdx, hz.couplingIdx, ?_⟩
  · show u.pos0HalfRange = env.vp.halfRangeAt u.vbIdx.toNat
    rw [hz.pos0HalfRange, hz.vbIdx]
    rfl
  · show u.pos0 = if env.dataHouse = true then clampZero u.pos0HalfRange s.pos0 else s.pos0
    rw [hpos, hz.pos0HalfRange]
    cases env.dataHouse with
    | false => rfl
    | true => rw [if_pos rfl, if_neg (by simp only [Bool.true_eq_false, false_or]; omega)]

theorem setProbeMultiIdx_ok {i : Int} (h : 0 ≤ i ∧ i < env.vp.probeMulties.length) (s : ChannelInfo) :
    ∃ l, setProbeMultiIdx env i s = .ok () { s with probeMultiIdx := i, probeLabel := some l } := by
  obtain ⟨m, hi⟩ : ∃ m, (index env.vp.probeMulties.length i).bind (fun k => env.vp.probeMulties[k]?) = some m := by
    rw [index_of_range h.1 h.2]
    exact ⟨_, List.getElem?_eq_getElem (by omega)⟩
  obtain ⟨l, hl⟩ : ∃ l, getProbeLabel env.vp i { s with probeMultiIdx := i } = .ok l { s with probeMultiIdx := i } := by
    unfold getProbeLabel
    rw [hi]
    exact ⟨_, rfl⟩
  refine ⟨l, ?_⟩
  unfold setProbeMultiIdx
  rw [modify_bind, bind_of_ok hl]
  rfl

theorem setProbeMultiIdx_throws {i : Int} (h : ¬ (0 ≤ i ∧ i < env.vp.probeMulties.length)) (s : ChannelInfo) :
    setProbeMultiIdx env i s = .error .arrayIndexOutOfBounds { s with probeMultiIdx := i } := by
  have hi : index env.vp.probeMulties.length i = none := if_neg h
  unfold setProbeMultiIdx getProbeLabel
  rw [modify_bind, hi]
  rfl

theorem InRange.halfRange_int {s : ChannelInfo} (hs : InRange env s) : IsInt s.pos0HalfRange := by
  rw [hs.pos0HalfRange]
  exact env.vp.halfRange_int _

/-- At another scale the zero position is in range again. -/
theorem inRange_cSetVoltage {calls : Nat} (hp : Provides env) (hc : 1 ≤ calls) (idx : Int) {s : ChannelInfo}
    (hs : InRange env s) : ∃ t, cSetVoltage env calls idx s = .ok () t ∧ InRange env t := by
  have hn : 0 < env.vp.voltageNumber := by have := hs.vbIdx; omega
  obtain ⟨t, ht, hvb, hhr, hprobe, hcoup, hpos⟩ := cSetVoltage_spec hc idx s hn
  have hrange : 0 ≤ t.vbIdx ∧ t.vbIdx < env.vp.voltageNumber := by
    rw [hvb]
    exact getValidVotageChangeIndex_range hn idx
  have hint : IsInt t.pos0HalfRange := by
    rw [hhr]
    exact env.vp.halfRange_int _
  have h0 : 0 ≤ t.pos0HalfRange := by
    rw [hhr]
    apply hp.nonneg
    omega
  refine ⟨t, ht, hrange, hprobe ▸ hs.probeMultiIdx, hcoup ▸ hs.couplingIdx, hhr, ?_⟩
  rw [hpos]
  split_ifs with hd
  · exact clampZero_range hint h0 s.pos0
  · -- without a data house the position stays, and the half range is the same
    have hsame : t.pos0HalfRange = s.pos0HalfRange := by
      rw [hhr, hs.pos0HalfRange]
      apply hp.restricted.resolve_left hd
      · omega
      · have := hs.vbIdx
        omega
    rw [hsame]
    exact hs.pos0

/-- **One operation** keeps the ranges, and does not throw. -/
theorem inRange_perform (hp : Provides env) {op : Op} (hop : op.Ranged) {s : ChannelInfo} (hs : InRange env s) :
    ∃ t, perform env op s = .ok () t ∧ InRange env t := by
  cases op with
  | setOn on => exact absurd hop id
  | setVoltage idx calls => exact inRange_cSetVoltage hp hop idx hs
  | setBandLimit bl => exact ⟨_, rfl, hs.vbIdx, hs.probeMultiIdx, hs.couplingIdx, hs.pos0HalfRange, hs.pos0⟩
  | setCoupling coupling => exact absurd hop id
  | setNextCoupling =>
    exact ⟨_, rfl, hs.vbIdx, hs.probeMultiIdx, next_range (by decide) hs.couplingIdx, hs.pos0HalfRange, hs.pos0⟩
  | setZero zero commit =>
    have h0 : 0 ≤ s.pos0HalfRange := by have := hs.pos0; omega
    have hclamp := clampZero_range hs.halfRange_int h0 zero
    refine ⟨_, cSetZero_run zero commit s, ?_⟩
    cases commit with
    | true => exact ⟨hs.vbIdx, hs.probeMultiIdx, hs.couplingIdx, hs.pos0HalfRange, hclamp⟩
    | false => exact ⟨hs.vbIdx, hs.probeMultiIdx, hs.couplingIdx, hs.pos0HalfRange, hclamp⟩
  | setNextProbeMultiIdx =>
    have hnext := next_range env.vp.multies_int hs.probeMultiIdx
    obtain ⟨l, hl⟩ := setProbeMultiIdx_ok hnext s
    have hne : env.vp.probeMulties.length ≠ 0 := by
      have := hs.probeMultiIdx
      omega
    refine ⟨{ s with probeMultiIdx := _, probeLabel := some l }, ?_,
      hs.vbIdx, hnext, hs.couplingIdx, hs.pos0HalfRange, hs.pos0⟩
    show setNextProbeMultiIdx env s = _
    unfold setNextProbeMultiIdx
    rw [get_bind, if_neg hne]
    exact hl

/-- **Every sequence of operations** keeps the ranges, and comes to its end. -/
theorem inRange_performAll (hp : Provides env) {ops : List Op} (hops : ∀ op ∈ ops, op.Ranged) {s : ChannelInfo}
    (hs : InRange env s) : ∃ t, performAll env ops s = .ok () t ∧ InRange env t := by
  induction ops generalizing s with
  | nil => exact ⟨s, rfl, hs⟩
  | cons op ops ih =>
    obtain ⟨u, hu, hrange⟩ := inRange_perform hp (hops op List.mem_cons_self) hs
    obtain ⟨t, ht, hrange'⟩ := ih (fun op' h' => hops op' (List.mem_cons_of_mem op h')) hrange
    refine ⟨t, ?_, hrange'⟩
    unfold performAll
    rw [bind_of_ok hu]
    exact ht

/-! ## Loading -/

theorem repairedVb_range {vp : VoltageProvider} (h : 0 < vp.voltageNumber) (vb : Int) :
    0 ≤ repairedVb vp vb ∧ repairedVb vp vb < vp.voltageNumber := by
  unfold repairedVb
  split_ifs <;> omega

/-- The channel once `load` has set the scale and the switches. -/
def ChannelInfo.switched (s : ChannelInfo) (vp : VoltageProvider) (p : Pref) : ChannelInfo :=
  { ChannelInfo.scaled { s with pos0 := p.loadInt (s.name ++ ".pos0") } vp
      (repairedVb vp (p.loadInt (s.name ++ ".vbIdx"))) with
    on := p.loadBoolean (s.name ++ ".on")
    isMeasureCurrentOn := p.loadBoolean (s.name ++ ".measureCurrentOn") }

/-- `load`, up to the probe factor: the scale is repaired, so `setVoltbaseIndex` does not throw. -/
theorem load_run (p : Pref) (s : ChannelInfo) (h : 0 < env.vp.voltageNumber) :
    load env p s = (do
      setProbeMultiIdx env (p.loadInt (s.name ++ ".probeMultiIdx"))
      modify fun s' => { s' with
        couplingIdx := p.loadInt (s.name ++ ".couplingIdx")
        bandlimit := p.loadBoolean (s.name ++ ".bandlimit")
        inverse := p.loadBoolean (s.name ++ ".inverse")
        amperePerVolt := repairedAmpere (p.loadInt (s.name ++ ".amperePerVolt")) } : Exec Unit)
      (s.switched env.vp p) := by
  obtain ⟨h1, h2⟩ := repairedVb_range h (p.loadInt (s.name ++ ".vbIdx"))
  unfold load
  rw [get_bind, modify_bind, bind_of_ok (setVoltbaseIndex_firstload 0 _ h1 h2),
    modify_bind]
  rfl

/-- `load` with a valid probe factor: the scale is repaired, the other settings are those stored. -/
theorem load_ok {p : Pref} {s : ChannelInfo} (h : 0 < env.vp.voltageNumber)
    (hprobe : 0 ≤ p.loadInt (s.name ++ ".probeMultiIdx") ∧
      p.loadInt (s.name ++ ".probeMultiIdx") < env.vp.probeMulties.length) :
    ∃ t, load env p s = .ok () t ∧ t.vbIdx = repairedVb env.vp (p.loadInt (s.name ++ ".vbIdx")) ∧
      t.pos0HalfRange = env.vp.halfRangeAt t.vbIdx.toNat ∧ t.pos0 = p.loadInt (s.name ++ ".pos0") ∧
      t.probeMultiIdx = p.loadInt (s.name ++ ".probeMultiIdx") ∧
      t.couplingIdx = p.loadInt (s.name ++ ".couplingIdx") := by
  obtain ⟨l, hl⟩ := setProbeMultiIdx_ok hprobe (s.switched env.vp p)
  rw [load_run p s h, bind_of_ok hl]
  exact ⟨_, rfl, rfl, rfl, rfl, rfl, rfl⟩

/-- `load` with any other probe factor. -/
theorem load_throws {p : Pref} {s : ChannelInfo} (h : 0 < env.vp.voltageNumber)
    (hprobe : ¬ (0 ≤ p.loadInt (s.name ++ ".probeMultiIdx") ∧
      p.loadInt (s.name ++ ".probeMultiIdx") < env.vp.probeMulties.length)) :
    ∃ t, load env p s = .error .arrayIndexOutOfBounds t := by
  rw [load_run p s h, bind_of_error (setProbeMultiIdx_throws hprobe _)]
  exact ⟨_, rfl⟩

/-! ## Which preferences keep the ranges -/

/-- Every sequence of operations returns, with the settings in range. -/
def StaysInRange (env : Env) (s : ChannelInfo) : Prop :=
  ∀ ops : List Op, (∀ op ∈ ops, op.Ranged) → ∃ t, performAll env ops s = .ok () t ∧ InRange env t

/-- `load` returns, and every sequence of operations after it, with the settings in range. -/
def LoadsInRange (env : Env) (p : Pref) (c : ChannelInfo) : Prop := ∃ s, load env p c = .ok () s ∧ StaysInRange env s

/-- The stored probe factor, coupling and zero position are in range, the last one at the repaired scale. -/
structure Pref.Valid (p : Pref) (vp : VoltageProvider) (name : String) : Prop where
  probeMultiIdx : 0 ≤ p.loadInt (name ++ ".probeMultiIdx") ∧
    p.loadInt (name ++ ".probeMultiIdx") < vp.probeMulties.length
  couplingIdx : 0 ≤ p.loadInt (name ++ ".couplingIdx") ∧ p.loadInt (name ++ ".couplingIdx") < COUPLING.length
  pos0 : -vp.halfRangeAt (repairedVb vp (p.loadInt (name ++ ".vbIdx"))).toNat ≤ p.loadInt (name ++ ".pos0") ∧
    p.loadInt (name ++ ".pos0") ≤ vp.halfRangeAt (repairedVb vp (p.loadInt (name ++ ".vbIdx"))).toNat

theorem getValidVotageChangeIndex_of_lt {vp : VoltageProvider} {i : Nat} (h : i < vp.voltageNumber) :
    getValidVotageChangeIndex vp i = i := by
  unfold getValidVotageChangeIndex
  rw [if_neg (by omega), if_neg (by omega)]

theorem StaysInRange.inRange {s : ChannelInfo} (h : StaysInRange env s) : InRange env s := by
  obtain ⟨t, ht, hrange⟩ := h [] (fun op hop => absurd hop List.not_mem_nil)
  cases (ht : EStateM.Result.ok () s = .ok () t)
  exact hrange

/-- A channel goes to any scale, and is in range there. -/
theorem StaysInRange.at_scale {s : ChannelInfo} {i : Nat} (h : StaysInRange env s) (hi : i < env.vp.voltageNumber) :
    ∃ t, perform env (.setVoltage i 1) s = .ok () t ∧ InRange env t ∧ t.pos0HalfRange = env.vp.halfRangeAt i := by
  have hn : 0 < env.vp.voltageNumber := by omega
  obtain ⟨t, ht, hvb, hhr, -⟩ := cSetVoltage_spec (Nat.le_refl 1) i s hn
  obtain ⟨t', ht', hrange⟩ := h [.setVoltage i 1] (by simp [Op.Ranged])
  have hrun : performAll env [.setVoltage i 1] s = .ok () t := by
    unfold performAll
    exact bind_of_ok ht
  rw [hrun] at ht'
  cases ht'
  refine ⟨t, ht, hrange, ?_⟩
  rw [hhr, hvb, getValidVotageChangeIndex_of_lt hi, Int.toNat_natCast]

theorem StaysInRange.perform {s t : ChannelInfo} {op : Op} (h : StaysInRange env s) (hop : op.Ranged)
    (ht : perform env op s = .ok () t) : StaysInRange env t := by
  intro ops hops
  have hcons : performAll env (op :: ops) s = performAll env ops t := by
    rw [performAll, bind_of_ok ht]
  rw [← hcons]
  exact h (op :: ops) (List.forall_mem_cons.2 ⟨hop, hops⟩)

/-- Where all sequences keep the ranges, the provider allows it. -/
theorem StaysInRange.provides {s : ChannelInfo} (h : StaysInRange env s) : Provides env := by
  have hnonneg : ∀ i < env.vp.voltageNumber, 0 ≤ env.vp.halfRangeAt i := by
    intro i hi
    obtain ⟨t, -, hrange, hhr⟩ := h.at_scale hi
    have hpos := hrange.pos0
    omega
  refine ⟨hnonneg, ?_⟩
  cases hd : env.dataHouse with
  | true => exact .inl rfl
  | false =>
    right
    -- to scale `i`, to the end of its range, and to scale `j`: the position is still there
    have hle : ∀ i < env.vp.voltageNumber, ∀ j < env.vp.voltageNumber,
        env.vp.halfRangeAt i ≤ env.vp.halfRangeAt j := by
      intro i hi j hj
      have hn : 0 < env.vp.voltageNumber := by omega
      obtain ⟨t, ht, hrange, hhr⟩ := h.at_scale hi
      have h' := h.perform (show Op.Ranged (.setVoltage i 1) from Nat.le_refl 1) ht
      have hz := cSetZero_run (env.vp.halfRangeAt i) false t
      have h'' := h'.perform (show Op.Ranged (.setZero (env.vp.halfRangeAt i) false) from trivial) hz
      obtain ⟨u, hu, hrange', hhr'⟩ := h''.at_scale hj
      obtain ⟨u', hu', -, -, -, -, hpos⟩ :=
        cSetVoltage_spec (Nat.le_refl 1) j (t.zeroed (env.vp.halfRangeAt i) false) hn
      have heq : u' = u := by
        have := hu'.symm.trans hu
        cases this
        rfl
      rw [heq, hd, if_neg Bool.false_ne_true] at hpos
      have hclamp : (t.zeroed (env.vp.halfRangeAt i) false).pos0 = env.vp.halfRangeAt i := by
        have h0 := hnonneg i hi
        show clampZero t.pos0HalfRange (env.vp.halfRangeAt i) = env.vp.halfRangeAt i
        apply clampZero_of_range hrange.halfRange_int <;> omega
      have := hrange'.pos0
      omega
    intro i hi j hj
    exact Int.le_antisymm (hle i hi j hj) (hle j hj i hi)

/-- **Which preferences keep the ranges**: those with a valid probe factor, coupling and zero position, where the
provider allows it. -/
theorem loadsInRange_iff {p : Pref} {c : ChannelInfo} (h : 0 < env.vp.voltageNumber) :
    LoadsInRange env p c ↔ p.Valid env.vp c.name ∧ Provides env := by
  constructor
  · rintro ⟨s, hs, hops⟩
    have hprobe : 0 ≤ p.loadInt (c.name ++ ".probeMultiIdx") ∧
        p.loadInt (c.name ++ ".probeMultiIdx") < env.vp.probeMulties.length := by
      apply Decidable.byContradiction
      intro hne
      obtain ⟨t, ht⟩ := load_throws h hne
      rw [ht] at hs
      cases hs
    obtain ⟨t, ht, hvb, hhr, hpos, -, hcoup⟩ := load_ok h hprobe
    have heq : t = s := by
      have := ht.symm.trans hs
      cases this
      rfl
    subst heq
    have hrange := hops.inRange
    refine ⟨⟨hprobe, hcoup ▸ hrange.couplingIdx, ?_⟩, hops.provides⟩
    rw [← hpos, ← hvb, ← hhr]
    exact hrange.pos0
  · rintro ⟨hvalid, hp⟩
    obtain ⟨s, hs, hvb, hhr, hpos, hprobe, hcoup⟩ := load_ok (s := c) h hvalid.probeMultiIdx
    have hrange : InRange env s := by
      constructor
      · rw [hvb]
        exact repairedVb_range h _
      · rw [hprobe]
        exact hvalid.probeMultiIdx
      · rw [hcoup]
        exact hvalid.couplingIdx
      · exact hhr
      · rw [hhr, hvb, hpos]
        exact hvalid.pos0
    exact ⟨s, hs, fun ops hops => inRange_performAll hp hops hrange⟩

/-- A preference store with one setting that is not 0. -/
def Pref.single (key : String) (v : Int) : Pref where
  loadInt k := if k = key then v else 0
  loadBoolean _ := false

/-- A zero position in the half range of the lowest scale. -/
theorem loadsInRange_iff_pos0 :
    LoadsInRange ⟨threeScales, true⟩ (Pref.single "CH1.pos0" 250) (ChannelInfo.new 0) := by
  refine (loadsInRange_iff (by decide)).2 ⟨?_, ?_⟩
  · constructor <;> decide
  · refine ⟨by decide, .inl rfl⟩

/-- A probe factor past the last one, a coupling past the last one, and a zero position outside of the half range. -/
theorem storedSettings_out_of_range :
    (0 < threeScales.voltageNumber ∧ threeScales.probeMulties ≠ [] ∧ Provides ⟨threeScales, true⟩) ∧
      ¬ LoadsInRange ⟨threeScales, true⟩ (Pref.single "CH1.probeMultiIdx" 4) (ChannelInfo.new 0) ∧
      ¬ LoadsInRange ⟨threeScales, true⟩ (Pref.single "CH1.couplingIdx" 3) (ChannelInfo.new 0) ∧
      ¬ LoadsInRange ⟨threeScales, true⟩ (Pref.single "CH1.pos0" 251) (ChannelInfo.new 0) := by
  refine ⟨⟨by decide, by decide, by decide, .inl rfl⟩, ?_, ?_, ?_⟩
  · rintro ⟨s, hs, -⟩
    obtain ⟨t, ht⟩ := @load_throws ⟨threeScales, true⟩ (Pref.single "CH1.probeMultiIdx" 4) (ChannelInfo.new 0)
      (by decide) (by decide)
    rw [ht] at hs
    cases hs
  · rintro ⟨s, hs, hops⟩
    obtain ⟨t, ht, -, -, -, -, hcoup⟩ := @load_ok ⟨threeScales, true⟩ (Pref.single "CH1.couplingIdx" 3)
      (ChannelInfo.new 0) (by decide) (by decide)
    cases hs.symm.trans ht
    exact absurd (hcoup ▸ hops.inRange.couplingIdx) (by decide)
  · rintro ⟨s, hs, hops⟩
    obtain ⟨t, ht, hvb, hhr, hpos, -, -⟩ := @load_ok ⟨threeScales, true⟩ (Pref.single "CH1.pos0" 251)
      (ChannelInfo.new 0) (by decide) (by decide)
    cases hs.symm.trans ht
    have h := hops.inRange.pos0
    rw [hhr, hvb, hpos] at h
    exact absurd h (by decide)

end OwonVds.Wf
