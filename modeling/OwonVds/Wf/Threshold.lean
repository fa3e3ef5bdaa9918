import Mathlib.Algebra.Ring.Int.Defs
import OwonVds.Wf.Range

/-!
# What the trigger code is told about the zero position

Every `c_setZero` reports the displacement `dp` of the zero position to the trigger code, also the calls that
`setZeroYLoc` makes while `c_setVoltage` is still running. `Displaced s t ds` says that from `s` to `t` the
displacements `ds`, taken in unbounded integers, were reported, none of them too large for an `int`, and that they add
up to what the zero position moved. It composes (`Displaced.trans`), so it is enough to have it for one `c_setZero`
(`cSetZero_displaced`): the half ranges are below 2^30, and the zero position was restricted to one of them.

That the zero position is in the half range of the current scale is another matter: a smaller scale restricts it only
where there is a data house.
-/

namespace OwonVds.Wf

open OwonVds.Exec

/-! ## Displacements in unbounded integers -/

/-- What the trigger code was told, call by call. -/
def ChannelInfo.reported (s : ChannelInfo) : List Int := s.displacements.map Prod.fst

/-- `dp` of `n` calls of `c_setZero` with `zero`, the first of them at the zero position `p`. -/
def zeroDps (hpr zero : Int) : Int → Nat → List Int
  | _, 0 => []
  | p, n + 1 => (clampZero hpr zero - p) :: zeroDps hpr zero (clampZero hpr zero) n

/-- `dp` of the calls of `c_setZero` in an operation. -/
def Op.dps (env : Env) (s : ChannelInfo) : Op → List Int
  | .setZero zero _ => zeroDps s.pos0HalfRange zero s.pos0 1
  | .setVoltage idx calls =>
    match env.dataHouse, index env.vp.voltageNumber (getValidVotageChangeIndex env.vp idx) with
    | true, some i => zeroDps (env.vp.halfRangeAt i) s.pos0 s.pos0 calls
    | _, _ => []
  | _ => []

/-- The channel after the operations; one that throws leaves it as it is then. -/
def afterAll (env : Env) : List Op → ChannelInfo → ChannelInfo
  | [], s => s
  | op :: ops, s => afterAll env ops (final (perform env op s))

/-- `dp` of all calls of `c_setZero` in the operations. -/
def dpsAll (env : Env) : List Op → ChannelInfo → List Int
  | [], _ => []
  | op :: ops, s => op.dps env s ++ dpsAll env ops (final (perform env op s))

/-- The operations on the scale and on the zero position; `setZeroYLoc` comes back at least once. -/
def Op.MovesZero : Op → Prop
  | .setVoltage _ calls => 1 ≤ calls
  | .setZero _ _ => True
  | _ => False

/-- The zero position is in the half range. -/
def ChannelInfo.InZeroRange (s : ChannelInfo) : Prop := -s.pos0HalfRange ≤ s.pos0 ∧ s.pos0 ≤ s.pos0HalfRange

/-- The half range and the zero position are small enough for the difference of two positions to be an `int`. -/
structure Small (s : ChannelInfo) : Prop where
  halfRange : 0 ≤ s.pos0HalfRange ∧ s.pos0HalfRange < 0x40000000
  pos0 : -0x40000000 < s.pos0 ∧ s.pos0 < 0x40000000

/-- From `s` to `t` the displacements `ds` were reported, without overflow, and they are all the zero position moved. -/
structure Displaced (s t : ChannelInfo) (ds : List Int) : Prop where
  reported : t.reported = s.reported ++ ds
  noOverflow : ∀ dp ∈ ds, IsInt dp
  sum : ds.sum = t.pos0 - s.pos0

variable {env : Env} {s t u : ChannelInfo}

theorem Small.isInt (h : Small s) : IsInt s.pos0HalfRange := by
  have := h.halfRange
  constructor <;> omega

theorem Displaced.nil (hr : t.reported = s.reported) (hp : t.pos0 = s.pos0) : Displaced s t [] := by
  constructor
  · simp [hr]
  · simp
  · simp [hp]

theorem Displaced.trans {ds es : List Int} (h : Displaced s t ds) (h' : Displaced t u es) :
    Displaced s u (ds ++ es) := by
  constructor
  · rw [h'.reported, h.reported, List.append_assoc]
  · intro dp hdp
    rcases List.mem_append.1 hdp with hdp | hdp
    · exact h.noOverflow dp hdp
    · exact h'.noOverflow dp hdp
  · have hs := h.sum
    have hs' := h'.sum
    rw [List.sum_append]
    omega

/-- Only the fields of the zero position matter. -/
theorem Displaced.congr {s' t' : ChannelInfo} {ds : List Int} (h : Displaced s t ds)
    (hs : s'.pos0 = s.pos0) (hs' : s'.displacements = s.displacements)
    (ht : t'.pos0 = t.pos0) (ht' : t'.displacements = t.displacements) : Displaced s' t' ds := by
  constructor
  · simpa [ChannelInfo.reported, hs', ht'] using h.reported
  · exact h.noOverflow
  · rw [hs, ht, h.sum]

/-! ## One `c_setZero`, and `setZeroYLoc` -/

theorem cSetZero_displaced (hs : Small s) (zero : Int) (commit : Bool) :
    ∃ t, cSetZero zero commit s = .ok () t ∧ Displaced s t (zeroDps s.pos0HalfRange zero s.pos0 1) ∧ Small t ∧
      t.InZeroRange ∧ t.pos0HalfRange = s.pos0HalfRange ∧ t.vbIdx = s.vbIdx ∧
      t.pos0 = clampZero s.pos0HalfRange zero := by
  have hclamp := clampZero_range hs.isInt hs.halfRange.1 zero
  have hhr := hs.halfRange
  have hpos := hs.pos0
  have hnew : -0x40000000 < clampZero s.pos0HalfRange zero ∧ clampZero s.pos0HalfRange zero < 0x40000000 := by omega
  have hdp : IsInt (clampZero s.pos0HalfRange zero - s.pos0) := by
    constructor <;> omega
  have hz : Displaced s (s.zeroed zero commit) (zeroDps s.pos0HalfRange zero s.pos0 1) := by
    constructor
    · simp [ChannelInfo.reported, ChannelInfo.zeroed, zeroDps, wrap_of_isInt hdp]
    · simpa [zeroDps] using hdp
    · simp [zeroDps, ChannelInfo.zeroed]
  refine ⟨_, cSetZero_run zero commit s, ?_⟩
  cases commit with
  | false => exact ⟨hz, ⟨hhr, hnew⟩, hclamp, rfl, rfl, rfl⟩
  | true => exact ⟨hz.congr rfl rfl rfl rfl, ⟨hhr, hnew⟩, hclamp, rfl, rfl, rfl⟩

theorem setZeroYLoc_displaced (hs : Small s) (z : Int) (n : Nat) :
    ∃ t, setZeroYLoc z n s = .ok () t ∧ Displaced s t (zeroDps s.pos0HalfRange z s.pos0 n) ∧ Small t ∧
      (1 ≤ n → t.InZeroRange) ∧ t.pos0HalfRange = s.pos0HalfRange ∧ t.vbIdx = s.vbIdx := by
  induction n generalizing s with
  | zero => exact ⟨s, rfl, Displaced.nil rfl rfl, hs, by omega, rfl, rfl⟩
  | succ n ih =>
    obtain ⟨t, ht, hst, htsmall, htrange, hthr, htvb, htpos⟩ := cSetZero_displaced hs z true
    obtain ⟨u, hu, htu, husmall, hurange, huhr, huvb⟩ := ih htsmall
    refine ⟨u, ?_, ?_, husmall, ?_, huhr.trans hthr, huvb.trans htvb⟩
    · rw [setZeroYLoc, bind_of_ok ht]
      exact hu
    · rw [hthr, htpos] at htu
      exact hst.trans htu
    · intro _
      cases n with
      | zero =>
        cases (hu : EStateM.Result.ok () t = .ok () u)
        exact htrange
      | succ n => exact hurange (by omega)

/-! ## `c_setVoltage` -/

/-- The half ranges of all scales are below 2^30, and none is negative. -/
def SmallRanges (env : Env) : Prop :=
  ∀ i < env.vp.voltageNumber, 0 ≤ env.vp.halfRangeAt i ∧ env.vp.halfRangeAt i < 0x40000000

/-- Without any scale `c_setVoltage` leaves the zero position and the half range, whether or not it throws. -/
theorem cSetVoltage_invalid {idx : Int} (calls : Nat)
    (h : index env.vp.voltageNumber (getValidVotageChangeIndex env.vp idx) = none) (s : ChannelInfo) :
    ∃ i, final (cSetVoltage env calls idx s) = { s with vbIdx := i } := by
  unfold cSetVoltage
  split_ifs with hneg
  · exact ⟨s.vbIdx, rfl⟩
  · refine ⟨getValidVotageChangeIndex env.vp idx, ?_⟩
    unfold changeVoltage
    rw [get_bind, bind_of_error (setVoltbaseIndex_throws h)]
    rfl

/-- `c_setVoltage` at a scale: what `setVoltbaseIndex` does, and a submission. -/
theorem cSetVoltage_valid {idx : Int} {i calls : Nat}
    (h : index env.vp.voltageNumber (getValidVotageChangeIndex env.vp idx) = some i)
    (hu : setVoltbaseIndex env calls (getValidVotageChangeIndex env.vp idx) true false s = .ok () u) :
    ∃ l, cSetVoltage env calls idx s = .ok () { u with submitted := l } := by
  obtain ⟨h0, -, -⟩ := index_eq_some.1 h
  obtain ⟨l, -, hrun⟩ := changeVoltage_run hu
  unfold cSetVoltage
  rw [if_neg (by omega)]
  exact ⟨_, hrun⟩

/-- `c_setVoltage` reports what its nested calls of `c_setZero` report, before it has finished. -/
theorem cSetVoltage_displaced (hr : SmallRanges env) (hs : Small s) (idx : Int) (calls : Nat) :
    ∃ t, final (cSetVoltage env calls idx s) = t ∧ Small t ∧ Displaced s t (Op.dps env s (.setVoltage idx calls)) ∧
      (env.dataHouse = true → 1 ≤ calls → s.InZeroRange → t.InZeroRange) := by
  refine ⟨_, rfl, ?_⟩
  cases hi : index env.vp.voltageNumber (getValidVotageChangeIndex env.vp idx) with
  | none =>
    obtain ⟨i, ht⟩ := cSetVoltage_invalid calls hi s
    have hds : Op.dps env s (.setVoltage idx calls) = [] := by
      simp [Op.dps, hi]
    rw [ht, hds]
    exact ⟨⟨hs.halfRange, hs.pos0⟩, Displaced.nil rfl rfl, fun _ _ h => h⟩
  | some i =>
    obtain ⟨h0, hlt, rfl⟩ := index_eq_some.1 hi
    generalize hc : getValidVotageChangeIndex env.vp idx = change at hi h0 hlt
    have hscaled : Small (s.scaled env.vp change) := ⟨hr change.toNat (by omega), hs.pos0⟩
    have hrun := @setVoltbaseIndex_run env calls change true false s h0 hlt
    cases hd : env.dataHouse with
    | false =>
      -- nothing restricts the zero position, and nothing is reported
      rw [hd] at hrun
      obtain ⟨l, hl⟩ := cSetVoltage_valid (hc ▸ hi) (hc ▸ hrun)
      have hds : Op.dps env s (.setVoltage idx calls) = [] := by
        simp [Op.dps, hd]
      rw [hl, hds, hc]
      exact ⟨⟨hscaled.halfRange, hscaled.pos0⟩, Displaced.nil rfl rfl, by simp⟩
    | true =>
      obtain ⟨u, hu, hdisp, husmall, hurange, -, -⟩ := setZeroYLoc_displaced hscaled s.pos0 calls
      rw [hd] at hrun
      obtain ⟨l, hl⟩ := cSetVoltage_valid (hc ▸ hi) (hc ▸ hrun.trans hu)
      have hds : Op.dps env s (.setVoltage idx calls) =
          zeroDps (env.vp.halfRangeAt change.toNat) s.pos0 s.pos0 calls := by
        simp [Op.dps, hd, hc, hi]
      rw [hl, hds]
      exact ⟨⟨husmall.halfRange, husmall.pos0⟩, hdisp.congr rfl rfl rfl rfl, fun _ hcalls _ => hurange hcalls⟩

/-! ## Operations and runs -/

/-- What one operation does to the zero position. -/
structure Follows (env : Env) (s t : ChannelInfo) (op : Op) : Prop where
  small : Small t
  displaced : Displaced s t (op.dps env s)
  restricted : env.dataHouse = true → s.InZeroRange → t.InZeroRange
  zeroed : ∀ zero commit, op = .setZero zero commit → t.InZeroRange

/-- **One operation** on the scale or the zero position, whether or not it throws. -/
theorem follows_perform (hr : SmallRanges env) {op : Op} (hop : op.MovesZero) (hs : Small s) :
    Follows env s (final (perform env op s)) op := by
  cases op with
  | setVoltage idx calls =>
    obtain ⟨t, ht, hsmall, hdisp, hrange⟩ := cSetVoltage_displaced hr hs idx calls
    rw [show final (perform env (.setVoltage idx calls) s) = t from ht]
    exact ⟨hsmall, hdisp, fun hd => hrange hd hop, by simp⟩
  | setZero zero commit =>
    obtain ⟨t, ht, hdisp, hsmall, hrange, -⟩ := cSetZero_displaced hs zero commit
    rw [show final (perform env (.setZero zero commit) s) = t from congrArg final ht]
    exact ⟨hsmall, hdisp, fun _ _ => hrange, fun _ _ _ => hrange⟩
  | setOn on => exact absurd hop id
  | setBandLimit bl => exact absurd hop id
  | setCoupling coupling => exact absurd hop id
  | setNextCoupling => exact absurd hop id
  | setNextProbeMultiIdx => exact absurd hop id

/-- Where there is a scale, the operation returns, and the half range is that of the current scale. -/
theorem perform_returns {op : Op} (hop : op.MovesZero) (hn : 0 < env.vp.voltageNumber) (s : ChannelInfo) :
    perform env op s = .ok () (final (perform env op s)) ∧
      (s.pos0HalfRange = env.vp.halfRangeAt s.vbIdx.toNat →
        (final (perform env op s)).pos0HalfRange = env.vp.halfRangeAt (final (perform env op s)).vbIdx.toNat) := by
  cases op with
  | setVoltage idx calls =>
    obtain ⟨t, ht, -, hhr, -⟩ := cSetVoltage_spec hop idx s hn
    have hrun : perform env (.setVoltage idx calls) s = .ok () t := ht
    rw [hrun]
    exact ⟨rfl, fun _ => hhr⟩
  | setZero zero commit =>
    have hrun : perform env (.setZero zero commit) s = _ := cSetZero_run zero commit s
    rw [hrun]
    refine ⟨rfl, fun h => ?_⟩
    cases commit <;> exact h
  | setOn on => exact absurd hop id
  | setBandLimit bl => exact absurd hop id
  | setCoupling coupling => exact absurd hop id
  | setNextCoupling => exact absurd hop id
  | setNextProbeMultiIdx => exact absurd hop id

/-- **Every sequence of operations.** -/
theorem follows_afterAll (hr : SmallRanges env) {ops : List Op} (hops : ∀ op ∈ ops, op.MovesZero) (hs : Small s) :
    Small (afterAll env ops s) ∧ Displaced s (afterAll env ops s) (dpsAll env ops s) ∧
      (env.dataHouse = true → s.InZeroRange → (afterAll env ops s).InZeroRange) ∧
      (∀ zero commit, ops.getLast? = some (.setZero zero commit) → (afterAll env ops s).InZeroRange) := by
  induction ops generalizing s with
  | nil => exact ⟨hs, Displaced.nil rfl rfl, fun _ h => h, by simp⟩
  | cons op ops ih =>
    have hstep := follows_perform hr (hops op List.mem_cons_self) hs
    obtain ⟨hsmall, hdisp, hrange, hlast⟩ := ih (fun o ho => hops o (List.mem_cons_of_mem op ho)) hstep.small
    refine ⟨hsmall, hstep.displaced.trans hdisp, fun hd h => hrange hd (hstep.restricted hd h), ?_⟩
    intro zero commit hl
    cases ops with
    | nil => exact hstep.zeroed zero commit (by simpa using hl)
    | cons op' ops => exact hlast zero commit (by simpa using hl)

theorem performAll_returns {ops : List Op} (hops : ∀ op ∈ ops, op.MovesZero) (hn : 0 < env.vp.voltageNumber)
    (s : ChannelInfo) :
    performAll env ops s = .ok () (afterAll env ops s) ∧
      (s.pos0HalfRange = env.vp.halfRangeAt s.vbIdx.toNat →
        (afterAll env ops s).pos0HalfRange = env.vp.halfRangeAt (afterAll env ops s).vbIdx.toNat) := by
  induction ops generalizing s with
  | nil => exact ⟨rfl, id⟩
  | cons op ops ih =>
    obtain ⟨hret, hsync⟩ := perform_returns (hops op List.mem_cons_self) hn s
    obtain ⟨hrets, hsyncs⟩ := ih (fun o ho => hops o (List.mem_cons_of_mem op ho)) (final (perform env op s))
    refine ⟨?_, fun h => hsyncs (hsync h)⟩
    rw [performAll, bind_of_ok hret]
    exact hrets

/-- **The threshold follows the zero position**: over every sequence of `c_setZero` and `c_setVoltage` no displacement
overflows, and those reported add up to what the zero position moved. It is in the half range of the current scale
after every `c_setZero`, and with a data house after every operation. -/
theorem threshold_follows (hr : SmallRanges env) {s : ChannelInfo} (hhr : s.pos0HalfRange < 0x40000000)
    (hs : s.InZeroRange) {ops : List Op} (hops : ∀ op ∈ ops, op.MovesZero) :
    Displaced s (afterAll env ops s) (dpsAll env ops s) ∧
      (env.dataHouse = true → (afterAll env ops s).InZeroRange) ∧
      (∀ zero commit, ops.getLast? = some (.setZero zero commit) → (afterAll env ops s).InZeroRange) ∧
      (0 < env.vp.voltageNumber →
        performAll env ops s = .ok () (afterAll env ops s) ∧
          (s.pos0HalfRange = env.vp.halfRangeAt s.vbIdx.toNat →
            (afterAll env ops s).pos0HalfRange = env.vp.halfRangeAt (afterAll env ops s).vbIdx.toNat)) := by
  obtain ⟨h1, h2⟩ := hs
  have hsmall : Small s := by
    constructor <;> omega
  obtain ⟨-, hdisp, hrange, hlast⟩ := follows_afterAll hr hops hsmall
  exact ⟨hdisp, fun hd => hrange hd ⟨h1, h2⟩, hlast, fun hn => performAll_returns hops hn s⟩

/-- A channel at the middle scale. -/
def middleScale (pos0 : Int) : ChannelInfo :=
  { ChannelInfo.new 0 with vbIdx := 1, pos0 := pos0, pos0HalfRange := 500 }

theorem smallRanges_threeScales (dataHouse : Bool) : SmallRanges ⟨threeScales, dataHouse⟩ := by
  show ∀ i < threeScales.voltageNumber, 0 ≤ threeScales.halfRangeAt i ∧ threeScales.halfRangeAt i < 0x40000000
  decide

/-- To the end of the range, to the lowest scale, and back over the middle. -/
def downAndBack : List Op := [.setZero 0x7FFFFFFF false, .setVoltage 0 2, .setZero (-5) true]

theorem threshold_follows_down :
    Displaced (middleScale 400) (afterAll ⟨threeScales, true⟩ downAndBack (middleScale 400)) [100, -250, 0, -255] ∧
      (afterAll ⟨threeScales, true⟩ downAndBack (middleScale 400)).InZeroRange := by
  obtain ⟨hdisp, hrange, -⟩ := threshold_follows (smallRanges_threeScales true) (by decide)
    (show (middleScale 400).InZeroRange from by unfold ChannelInfo.InZeroRange; decide)
    (show ∀ op ∈ downAndBack, op.MovesZero from by simp [downAndBack, Op.MovesZero])
  exact ⟨hdisp, hrange rfl⟩

/-- Without a data house the lowest scale leaves the zero position outside of its half range. -/
theorem scale_without_dataHouse :
    SmallRanges ⟨threeScales, false⟩ ∧ (middleScale 400).InZeroRange ∧
      (middleScale 400).pos0HalfRange = threeScales.halfRangeAt (middleScale 400).vbIdx.toNat ∧
      ∃ t, performAll ⟨threeScales, false⟩ [.setVoltage 0 1] (middleScale 400) = .ok () t ∧
        t.pos0HalfRange = threeScales.halfRangeAt 0 ∧ ¬ t.InZeroRange := by
  refine ⟨smallRanges_threeScales false, ?_, by decide, _, rfl, by decide, ?_⟩
  · unfold ChannelInfo.InZeroRange
    decide
  · unfold ChannelInfo.InZeroRange
    decide

end OwonVds.Wf
