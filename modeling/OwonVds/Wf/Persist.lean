import OwonVds.Java.Pref
import OwonVds.Wf.Range

/-!
# Persisting a channel and loading it again

What `persist` writes, `load` reads back (`persist_stores`, `load_of_stores`), with one exception: under `.bandlimit`
stands `isBandlimit`, and `load` takes it for the field. At scale index 0 the two differ where the field is off, and the
difference shows at the next scale (`answersAlike_iff`). The scale and the field are all that `isBandlimit` and the
operations on it depend on, so two channels are compared by these alone (`performAll_bandState`).
-/

namespace OwonVds.Wf

open OwonVds.Exec OwonVds.Java

variable {P : Type}

/-! ## Persisting -/

/-- `persist`; `rgb` is the colour of the channel, which never changes. -/
def ChannelInfo.persist (s : ChannelInfo) (store : PrefStore P) (rgb : String) (p : P) : P :=
  let p := store.persistInt p (s.name ++ ".vbIdx") s.vbIdx
  let p := store.persistInt p (s.name ++ ".pos0") s.pos0
  let p := store.persistBoolean p (s.name ++ ".on") s.on
  let p := store.persistBoolean p (s.name ++ ".measureCurrentOn") s.isMeasureCurrentOn
  let p := store.persistInt p (s.name ++ ".probeMultiIdx") s.probeMultiIdx
  let p := store.persistInt p (s.name ++ ".couplingIdx") s.couplingIdx
  let p := store.persistRGB p (s.name ++ ".rgb") rgb
  let p := store.persistBoolean p (s.name ++ ".bandlimit") s.isBandlimit
  let p := store.persistBoolean p (s.name ++ ".inverse") s.inverse
  store.persistInt p (s.name ++ ".amperePerVolt") s.amperePerVolt

/-- What `load` sees of a store. -/
def view (store : PrefStore P) (p : P) : Pref := ⟨store.loadInt p, store.loadBoolean p⟩

/-- The preferences under the channel's name are what `persist` writes of it. -/
structure Pref.Stores (q : Pref) (s : ChannelInfo) : Prop where
  vbIdx : q.loadInt (s.name ++ ".vbIdx") = s.vbIdx
  pos0 : q.loadInt (s.name ++ ".pos0") = s.pos0
  on : q.loadBoolean (s.name ++ ".on") = s.on
  measureCurrentOn : q.loadBoolean (s.name ++ ".measureCurrentOn") = s.isMeasureCurrentOn
  probeMultiIdx : q.loadInt (s.name ++ ".probeMultiIdx") = s.probeMultiIdx
  couplingIdx : q.loadInt (s.name ++ ".couplingIdx") = s.couplingIdx
  bandlimit : q.loadBoolean (s.name ++ ".bandlimit") = s.isBandlimit
  inverse : q.loadBoolean (s.name ++ ".inverse") = s.inverse
  amperePerVolt : q.loadInt (s.name ++ ".amperePerVolt") = s.amperePerVolt

theorem persist_stores (store : PrefStore P) (rgb : String) (s : ChannelInfo) (p : P) :
    (view store (s.persist store rgb p)).Stores s := by
  constructor <;> simp [view, ChannelInfo.persist, String.append_right_inj]

/-! ## Loading -/

/-- A state in which a channel may be persisted. -/
structure Persistable (vp : VoltageProvider) (s : ChannelInfo) : Prop where
  vbIdx : 0 ≤ s.vbIdx ∧ s.vbIdx < vp.voltageNumber
  probeMultiIdx : 0 ≤ s.probeMultiIdx ∧ s.probeMultiIdx < vp.probeMulties.length
  couplingIdx : 0 ≤ s.couplingIdx ∧ s.couplingIdx < COUPLING.length
  pos0 : -vp.halfRangeAt s.vbIdx.toNat ≤ s.pos0 ∧ s.pos0 ≤ vp.halfRangeAt s.vbIdx.toNat
  amperePerVolt : s.amperePerVolt ≠ 0

/-- The two channels have the same settings; the band limit is compared by its effect. -/
structure SameSettings (s t : ChannelInfo) : Prop where
  on : t.on = s.on
  isMeasureCurrentOn : t.isMeasureCurrentOn = s.isMeasureCurrentOn
  probeMultiIdx : t.probeMultiIdx = s.probeMultiIdx
  couplingIdx : t.couplingIdx = s.couplingIdx
  vbIdx : t.vbIdx = s.vbIdx
  pos0 : t.pos0 = s.pos0
  inverse : t.inverse = s.inverse
  amperePerVolt : t.amperePerVolt = s.amperePerVolt

theorem repairedVb_of_range {vp : VoltageProvider} {vb : Int} (h : 0 ≤ vb ∧ vb < vp.voltageNumber) :
    repairedVb vp vb = vb := by
  apply if_neg
  omega

/-- `load` from the preferences that `persist` wrote: the settings are the channel's own, and the band limit field is
what `isBandlimit` answered. -/
theorem load_of_stores (env : Env) {q : Pref} {s c : ChannelInfo} (hq : q.Stores s) (hname : c.name = s.name)
    (hs : Persistable env.vp s) :
    ∃ t, load env q c = .ok () t ∧ SameSettings s t ∧ t.bandlimit = s.isBandlimit := by
  obtain ⟨h1, h2⟩ := hs.vbIdx
  have hprobe := hs.probeMultiIdx
  rw [← hq.probeMultiIdx, ← hname] at hprobe
  obtain ⟨l, hl⟩ := setProbeMultiIdx_ok hprobe (c.switched env.vp q)
  rw [load_run q c (by omega), bind_of_ok hl, hname]
  refine ⟨_, rfl, ?_, hq.bandlimit⟩
  constructor
  · show q.loadBoolean (c.name ++ ".on") = s.on
    rw [hname, hq.on]
  · show q.loadBoolean (c.name ++ ".measureCurrentOn") = s.isMeasureCurrentOn
    rw [hname, hq.measureCurrentOn]
  · exact hq.probeMultiIdx
  · exact hq.couplingIdx
  · show repairedVb env.vp (q.loadInt (c.name ++ ".vbIdx")) = s.vbIdx
    rw [hname, hq.vbIdx, repairedVb_of_range hs.vbIdx]
  · show q.loadInt (c.name ++ ".pos0") = s.pos0
    rw [hname, hq.pos0]
  · exact hq.inverse
  · show repairedAmpere (q.loadInt (s.name ++ ".amperePerVolt")) = s.amperePerVolt
    rw [hq.amperePerVolt, repairedAmpere, if_neg hs.amperePerVolt]

/-! ## The band limit after further operations -/

/-- A scale change or a band limit setting. -/
def Op.Banding : Op → Prop
  | .setVoltage _ _ => True
  | .setBandLimit _ => True
  | _ => False

/-- What `isBandlimit` is computed from. -/
def ChannelInfo.bandState (s : ChannelInfo) : Int × Bool := (s.vbIdx, s.bandlimit)

/-- An operation on the scale and the band limit field. -/
def Op.onBandState (vp : VoltageProvider) (b : Int × Bool) : Op → Int × Bool
  | .setVoltage idx _ => (getValidVotageChangeIndex vp idx, b.2)
  | .setBandLimit bl => (b.1, bl)
  | _ => b

theorem perform_bandState (env : Env) (h : 0 < env.vp.voltageNumber) {op : Op} (hop : op.Banding) (s : ChannelInfo) :
    ∃ t, perform env op s = .ok () t ∧ t.bandState = op.onBandState env.vp s.bandState := by
  cases op with
  | setVoltage idx calls =>
    obtain ⟨h1, h2⟩ := getValidVotageChangeIndex_range h idx
    obtain ⟨u, hu, hz, -⟩ := setVoltbaseIndex_rezeroed calls s h1 h2
    obtain ⟨l, -, hrun⟩ := changeVoltage_run hu
    refine ⟨_, (cSetVoltage_run calls idx s h).trans hrun, ?_⟩
    exact Prod.ext hz.vbIdx hz.bandlimit
  | setBandLimit bl => exact ⟨_, rfl, rfl⟩
  | setOn on => exact hop.elim
  | setCoupling coupling => exact hop.elim
  | setNextCoupling => exact hop.elim
  | setZero zero commit => exact hop.elim
  | setNextProbeMultiIdx => exact hop.elim

/-- A sequence of operations acts on the scale and the band limit field alone. -/
theorem performAll_bandState (env : Env) (h : 0 < env.vp.voltageNumber) {ops : List Op}
    (hops : ∀ op ∈ ops, op.Banding) (s : ChannelInfo) :
    ∃ t, performAll env ops s = .ok () t ∧ t.bandState = ops.foldl (Op.onBandState env.vp) s.bandState := by
  induction ops generalizing s with
  | nil => exact ⟨s, rfl, rfl⟩
  | cons op ops ih =>
    obtain ⟨hop, hrest⟩ := List.forall_mem_cons.1 hops
    obtain ⟨t, ht, hband⟩ := perform_bandState env h hop s
    obtain ⟨u, hu, hband'⟩ := ih hrest t
    refine ⟨u, ?_, ?_⟩
    · rw [performAll, bind_of_ok ht]
      exact hu
    · rw [hband', hband, List.foldl_cons]

theorem isBandlimit_of_bandState {s t : ChannelInfo} (h : s.bandState = t.bandState) :
    s.isBandlimit = t.isBandlimit := by
  obtain ⟨hvb, hband⟩ := Prod.mk.inj h
  rw [isBandlimit_eq, isBandlimit_eq, hvb, hband]

/-- After every sequence of scale changes and band limit settings, `isBandlimit` answers the same on both. -/
def AnswersAlike (env env' : Env) (s t : ChannelInfo) : Prop :=
  ∀ ops : List Op, (∀ op ∈ ops, op.Banding) → ∃ s' t', performAll env ops s = .ok () s' ∧
    performAll env' ops t = .ok () t' ∧ t'.isBandlimit = s'.isBandlimit

variable {vp : VoltageProvider} {dh dh' : Bool}

theorem answersAlike_of_bandState (h : 0 < vp.voltageNumber) {s t : ChannelInfo} (hst : t.bandState = s.bandState) :
    AnswersAlike ⟨vp, dh⟩ ⟨vp, dh'⟩ s t := by
  intro ops hops
  obtain ⟨s', hs', hsb⟩ := performAll_bandState ⟨vp, dh⟩ h hops s
  obtain ⟨t', ht', htb⟩ := performAll_bandState ⟨vp, dh'⟩ h hops t
  refine ⟨s', t', hs', ht', isBandlimit_of_bandState ?_⟩
  rw [htb, hsb, hst]

/-- With one scale, its index is 0 after every sequence. -/
theorem foldl_onBandState_single (h : vp.voltageNumber = 1) (ops : List Op) {b : Int × Bool} (hb : b.1 = 0) :
    (ops.foldl (Op.onBandState vp) b).1 = 0 := by
  induction ops generalizing b with
  | nil => exact hb
  | cons op ops ih =>
    apply ih
    cases op with
    | setVoltage idx calls =>
      have hpos : 0 < vp.voltageNumber := by omega
      have hr := getValidVotageChangeIndex_range hpos idx
      show getValidVotageChangeIndex vp idx = 0
      omega
    | _ => exact hb

theorem answersAlike_of_single (h : vp.voltageNumber = 1) {s t : ChannelInfo} (hs : s.vbIdx = 0) (ht : t.vbIdx = 0) :
    AnswersAlike ⟨vp, dh⟩ ⟨vp, dh'⟩ s t := by
  have hpos : 0 < vp.voltageNumber := by omega
  intro ops hops
  obtain ⟨s', hs', hsb⟩ := performAll_bandState ⟨vp, dh⟩ hpos hops s
  obtain ⟨t', ht', htb⟩ := performAll_bandState ⟨vp, dh'⟩ hpos hops t
  have hs0 : s'.vbIdx = 0 := (congrArg Prod.fst hsb).trans (foldl_onBandState_single h ops hs)
  have ht0 : t'.vbIdx = 0 := (congrArg Prod.fst htb).trans (foldl_onBandState_single h ops ht)
  exact ⟨s', t', hs', ht', by rw [isBandlimit_of_eq hs0, isBandlimit_of_eq ht0]⟩

/-- A forced band limit that is taken for the user's own shows at the next scale, if there is one. -/
theorem answersAlike_iff (dh dh' : Bool) {s t : ChannelInfo} (hs : 0 ≤ s.vbIdx ∧ s.vbIdx < vp.voltageNumber)
    (hvb : t.vbIdx = s.vbIdx) (hband : t.bandlimit = s.isBandlimit) :
    AnswersAlike ⟨vp, dh⟩ ⟨vp, dh'⟩ s t ↔ s.vbIdx ≠ 0 ∨ s.bandlimit = true ∨ vp.voltageNumber = 1 := by
  have hpos : 0 < vp.voltageNumber := by omega
  constructor
  · intro h
    apply Decidable.byContradiction
    intro hne
    obtain ⟨h0, hb, h1⟩ : s.vbIdx = 0 ∧ s.bandlimit = false ∧ vp.voltageNumber ≠ 1 := by
      simpa [not_or] using hne
    have hop : ∀ op ∈ [Op.setVoltage 1 0], op.Banding := by simp [Op.Banding]
    obtain ⟨s', t', hs', ht', hsame⟩ := h _ hop
    obtain ⟨s'', hs'', hsb⟩ := performAll_bandState ⟨vp, dh⟩ hpos hop s
    obtain ⟨t'', ht'', htb⟩ := performAll_bandState ⟨vp, dh'⟩ hpos hop t
    cases hs'.symm.trans hs''
    cases ht'.symm.trans ht''
    -- at index 1 nothing is forced, and the fields are what they were
    have hidx : getValidVotageChangeIndex vp 1 = 1 := by
      unfold getValidVotageChangeIndex
      rw [if_neg (by omega), if_neg (by omega)]
    obtain ⟨hsv, hsl⟩ := Prod.mk.inj hsb
    obtain ⟨htv, htl⟩ := Prod.mk.inj htb
    have hsv' : s'.vbIdx = 1 := hsv.trans hidx
    have htv' : t'.vbIdx = 1 := htv.trans hidx
    have hsl' : s'.bandlimit = false := hsl.trans hb
    have htl' : t'.bandlimit = true := (htl.trans hband).trans (isBandlimit_of_eq h0)
    rw [isBandlimit_of_ne (by omega), isBandlimit_of_ne (by omega), hsl', htl'] at hsame
    cases hsame
  · rintro (h | h | h)
    · apply answersAlike_of_bandState hpos
      exact Prod.ext hvb (hband.trans (isBandlimit_of_ne h))
    · apply answersAlike_of_bandState hpos
      refine Prod.ext hvb (hband.trans ?_)
      rw [isBandlimit_eq, h, Bool.or_true]
      exact h.symm
    · have h0 : s.vbIdx = 0 := by omega
      exact answersAlike_of_single h h0 (hvb.trans h0)

/-! ## Persisting, and loading into a new channel -/

/-- The channel that `load` makes of a new one from what `persist` wrote has the same settings, and answers alike. -/
def SurvivesReload (env env' : Env) (store : PrefStore P) (rgb : String) (p : P) (number : Nat) (s : ChannelInfo) :
    Prop :=
  ∃ t, load env' (view store (s.persist store rgb p)) (ChannelInfo.new number) = .ok () t ∧ SameSettings s t ∧
    AnswersAlike env env' s t

/-- **When persisting preserves a channel**: when its band limit is not forced, or set anyway, or there is no other
scale. -/
theorem survivesReload_iff (store : PrefStore P) (rgb : String) (p : P) {number : Nat} {s : ChannelInfo}
    (hname : s.name = (ChannelInfo.new number).name) (hs : Persistable vp s) :
    SurvivesReload ⟨vp, dh⟩ ⟨vp, dh'⟩ store rgb p number s ↔
      s.vbIdx ≠ 0 ∨ s.bandlimit = true ∨ vp.voltageNumber = 1 := by
  obtain ⟨t, ht, hsame, hband⟩ := load_of_stores ⟨vp, dh'⟩ (persist_stores store rgb s p) hname.symm hs
  have hiff := answersAlike_iff dh dh' hs.vbIdx hsame.vbIdx hband
  constructor
  · rintro ⟨u, hu, -, halike⟩
    cases ht.symm.trans hu
    exact hiff.1 halike
  · intro h
    exact ⟨t, ht, hsame, hiff.2 h⟩

/-- A channel at the lowest scale. -/
def lowestScale (bandlimit : Bool) : ChannelInfo :=
  { ChannelInfo.new 0 with bandlimit := bandlimit, amperePerVolt := 10000 }

theorem lowestScale_persistable (bandlimit : Bool) : Persistable threeScales (lowestScale bandlimit) := by
  constructor <;> cases bandlimit <;> decide

/-- With its own band limit on, the channel survives. -/
theorem survivesReload_iff_lowest :
    SurvivesReload ⟨threeScales, true⟩ ⟨threeScales, false⟩ properties "00FF00"
      ⟨fun _ => 0, fun _ => false, fun _ => ""⟩ 0 (lowestScale true) := by
  have hname : (lowestScale true).name = (ChannelInfo.new 0).name := rfl
  apply (survivesReload_iff properties "00FF00" _ hname (lowestScale_persistable true)).2
  exact .inr (.inl rfl)

/-- With its own band limit off, it comes back with the forced one for its own. -/
theorem forced_bandlimit_persisted :
    (lowestScale false).name = (ChannelInfo.new 0).name ∧ Persistable threeScales (lowestScale false) ∧
      ¬ SurvivesReload ⟨threeScales, true⟩ ⟨threeScales, true⟩ properties "00FF00"
        ⟨fun _ => 0, fun _ => false, fun _ => ""⟩ 0 (lowestScale false) := by
  refine ⟨rfl, lowestScale_persistable false, ?_⟩
  obtain ⟨t, ht, hsame, hband⟩ := load_of_stores ⟨threeScales, true⟩
    (persist_stores properties "00FF00" (lowestScale false) ⟨fun _ => 0, fun _ => false, fun _ => ""⟩) (c := .new 0)
    rfl (lowestScale_persistable false)
  rintro ⟨u, hu, -, halike⟩
  cases ht.symm.trans hu
  rcases (answersAlike_iff true true (by decide) hsame.vbIdx hband).1 halike with h | h | h
  · exact h rfl
  · cases h
  · cases h

end OwonVds.Wf
