import Mathlib.Algebra.BigOperators.Group.List.Basic
import Mathlib.Algebra.Ring.Int.Defs
import OwonVds.Lib.Trans
import OwonVds.Wf.Channel

/-!
# Notices that overlap

Every `keepShow` starts a thread that runs `nofading`: it shows the dialog and adds its duration to `mstime` in one
synchronized block, sleeps, and takes the duration off again in a second one, which hides the dialog when nothing is
left. The threads come in any order, and a sleep ends in time or by an interrupt.

`mstime` does not count the shows, it adds up durations. `Inv` says that it is the sum of the durations of the shows
that are active (`Dialog.total`), and that the dialog is visible when this sum is positive; as no duration is 0, that is
when there is such a show (`total_pos_iff`).
-/

namespace OwonVds.Ui

open OwonVds.Trans OwonVds.Wf

/-- Where the thread of a show is: before the first block, in `Thread.sleep`, before the second block, at its end. -/
inductive Phase
  | starting | sleeping | awake | left
  deriving DecidableEq, Repr

/-- A call of `nofading`. -/
structure Show where
  time : Int
  phase : Phase
  deriving DecidableEq, Repr

structure KeepNoticeDialog where
  mstime : Int
  visible : Bool
  /-- The threads that `keepShow` started. -/
  shows : List Show
  deriving DecidableEq, Repr

def KeepNoticeDialog.new : KeepNoticeDialog := ⟨0, false, []⟩

inductive Event
  | keepShow (time : Int)
  | enter (i : Nat)
  /-- `Thread.sleep` returns, or is interrupted; the exception is only printed. -/
  | wake (i : Nat) (interrupted : Bool)
  | leave (i : Nat)
  deriving DecidableEq, Repr

/-- The first synchronized block of `nofading`. -/
def enterBlock (time : Int) (d : KeepNoticeDialog) : KeepNoticeDialog :=
  { d with visible := true, mstime := wrap (d.mstime + time) }

/-- The second synchronized block of `nofading`. -/
def leaveBlock (t : Int) (d : KeepNoticeDialog) : KeepNoticeDialog :=
  let mstime := wrap (d.mstime - t)
  if mstime ≤ 0 then { d with visible := false, mstime := 0 } else { d with mstime := mstime }

/-- Thread `i` goes from phase `p` to phase `q` and runs a block with its duration. -/
def KeepNoticeDialog.advance (d : KeepNoticeDialog) (i : Nat) (p q : Phase)
    (block : Int → KeepNoticeDialog → KeepNoticeDialog) : Option KeepNoticeDialog :=
  match d.shows[i]? with
  | some sh =>
    if sh.phase = p then some (block sh.time { d with shows := d.shows.set i { sh with phase := q } }) else none
  | none => none

@[simp] theorem leaveBlock_shows (t : Int) (d : KeepNoticeDialog) : (leaveBlock t d).shows = d.shows := by
  unfold leaveBlock
  dsimp only
  split <;> rfl

def step (d : KeepNoticeDialog) : Event → Option KeepNoticeDialog
  | .keepShow time => some { d with shows := d.shows ++ [⟨time, .starting⟩] }
  | .enter i => d.advance i .starting .sleeping enterBlock
  | .wake i _ => d.advance i .sleeping .awake fun _ d => d
  | .leave i => d.advance i .awake .left leaveBlock

/-! ## The shows that are active -/

/-- The show has entered and not yet left. -/
def Show.active (sh : Show) : Bool :=
  match sh.phase with
  | .starting | .left => false
  | .sleeping | .awake => true

/-- What the show adds to `mstime`. -/
def Show.weight (sh : Show) : Int := if sh.active then sh.time else 0

/-- The sum of the durations of the active shows. -/
def total (shows : List Show) : Int := (shows.map Show.weight).sum

variable {d d' : KeepNoticeDialog} {shows : List Show}

theorem weight_nonneg {sh : Show} (h : 0 < sh.time) : 0 ≤ sh.weight := by
  unfold Show.weight
  split <;> omega

theorem total_nonneg (h : ∀ sh ∈ shows, 0 < sh.time) : 0 ≤ total shows := by
  induction shows with
  | nil => exact Int.le_refl 0
  | cons sh shows ih =>
    have hw := weight_nonneg (h sh List.mem_cons_self)
    have hrest := ih fun x hx => h x (List.mem_cons_of_mem sh hx)
    simp only [total, List.map_cons, List.sum_cons] at hrest ⊢
    omega

/-- Durations are positive, so the sum tells whether a show is active. -/
theorem total_pos_iff (h : ∀ sh ∈ shows, 0 < sh.time) : 0 < total shows ↔ ∃ sh ∈ shows, sh.active = true := by
  induction shows with
  | nil => simp [total]
  | cons sh shows ih =>
    have hrest : ∀ x ∈ shows, 0 < x.time := fun x hx => h x (List.mem_cons_of_mem sh hx)
    have hnonneg := total_nonneg hrest
    have htime := h sh List.mem_cons_self
    have hcons : total (sh :: shows) = sh.weight + total shows := by
      simp [total]
    rw [hcons, List.exists_mem_cons_iff, ← ih hrest]
    cases ha : sh.active with
    | false => simp [Show.weight, ha]
    | true =>
      simp only [Show.weight, ha, if_true, true_or, iff_true]
      omega

theorem total_set {i : Nat} {sh sh' : Show} (h : shows[i]? = some sh) :
    total (shows.set i sh') = total shows - sh.weight + sh'.weight := by
  obtain ⟨hi, rfl⟩ := List.getElem?_eq_some_iff.1 h
  unfold total
  rw [List.map_set, List.sum_set', dif_pos (by simpa using hi), List.getElem_map]
  omega

theorem time_set {i : Nat} {sh sh' : Show} (h : ∀ x ∈ shows, 0 < x.time) (hi : shows[i]? = some sh)
    (ht : sh'.time = sh.time) : ∀ x ∈ shows.set i sh', 0 < x.time := by
  intro x hx
  rcases List.mem_or_eq_of_mem_set hx with hx | rfl
  · exact h x hx
  · rw [ht]
    exact h sh (List.mem_of_getElem? hi)

/-! ## One step -/

theorem advance_eq_some {i : Nat} {p q : Phase} {block : Int → KeepNoticeDialog → KeepNoticeDialog} :
    d.advance i p q block = some d' ↔ ∃ sh, d.shows[i]? = some sh ∧ sh.phase = p ∧
      d' = block sh.time { d with shows := d.shows.set i { sh with phase := q } } := by
  unfold KeepNoticeDialog.advance
  cases hi : d.shows[i]? with
  | none => simp
  | some sh => simp [eq_comm]

theorem enter_eq_some {i : Nat} :
    step d (.enter i) = some d' ↔ ∃ sh, d.shows[i]? = some sh ∧ sh.phase = .starting ∧
      d' = enterBlock sh.time { d with shows := d.shows.set i { sh with phase := .sleeping } } := advance_eq_some

theorem wake_eq_some {i : Nat} {interrupted : Bool} :
    step d (.wake i interrupted) = some d' ↔ ∃ sh, d.shows[i]? = some sh ∧ sh.phase = .sleeping ∧
      d' = { d with shows := d.shows.set i { sh with phase := .awake } } :=
  @advance_eq_some d d' i .sleeping .awake fun _ d => d

theorem leave_eq_some {i : Nat} :
    step d (.leave i) = some d' ↔ ∃ sh, d.shows[i]? = some sh ∧ sh.phase = .awake ∧
      d' = leaveBlock sh.time { d with shows := d.shows.set i { sh with phase := .left } } := advance_eq_some

/-- No duration is 0; `mstime` is the sum of the durations of the active shows, and the dialog is visible when it is
positive. -/
structure Inv (d : KeepNoticeDialog) : Prop where
  time : ∀ sh ∈ d.shows, 0 < sh.time
  mstime : d.mstime = total d.shows
  visible : d.visible = true ↔ 0 < total d.shows

/-- Durations are positive. -/
def Event.Positive : Event → Prop
  | .keepShow time => 0 < time
  | _ => True

/-- The durations of the active shows together are an `int`. -/
def Bounded (d : KeepNoticeDialog) : Prop := total d.shows < 0x80000000

instance : DecidablePred Bounded := fun d => inferInstanceAs (Decidable (total d.shows < 0x80000000))

/-- The first block, as long as the sum does not overflow. -/
theorem inv_enterBlock {time : Int} (hinv : d.mstime + time = total d.shows) (htime : 0 < time) (h0 : 0 ≤ d.mstime)
    (hpos : ∀ sh ∈ d.shows, 0 < sh.time) (hb : total d.shows < 0x80000000) : Inv (enterBlock time d) := by
  have hwrap : wrap (d.mstime + time) = total d.shows := by
    rw [hinv]
    apply wrap_of_isInt
    constructor <;> omega
  constructor
  · exact hpos
  · exact hwrap
  · simp only [enterBlock, true_iff]
    omega

/-- The second block: what it takes off is in the sum, so that the reset to 0 changes nothing. -/
theorem inv_leaveBlock {t : Int} (hinv : d.mstime - t = total d.shows) (hpos : ∀ sh ∈ d.shows, 0 < sh.time)
    (hvis : d.visible = true) (hb : total d.shows < 0x80000000) : Inv (leaveBlock t d) := by
  have h0 := total_nonneg hpos
  have hwrap : wrap (d.mstime - t) = total d.shows := by
    rw [hinv]
    apply wrap_of_isInt
    constructor <;> omega
  unfold leaveBlock
  simp only [hwrap]
  split
  · constructor
    · exact hpos
    · dsimp only
      omega
    · simp only [Bool.false_eq_true, false_iff]
      omega
  · constructor
    · exact hpos
    · rfl
    · simp only [hvis, true_iff]
      omega

/-- A new thread is not active. -/
theorem inv_keepShow {time : Int} (hd : Inv d) (htime : 0 < time) :
    Inv { d with shows := d.shows ++ [⟨time, .starting⟩] } := by
  have htotal : total (d.shows ++ [⟨time, .starting⟩]) = total d.shows := by
    simp [total, Show.weight, Show.active]
  constructor
  · exact List.forall_mem_append.2 ⟨hd.time, List.forall_mem_singleton.2 htime⟩
  · exact hd.mstime.trans htotal.symm
  · exact hd.visible.trans (by rw [htotal])

theorem inv_enter {i : Nat} (hd : Inv d) (h : step d (.enter i) = some d') (hb : Bounded d') : Inv d' := by
  obtain ⟨sh, hi, hp, rfl⟩ := enter_eq_some.1 h
  have htotal := @total_set d.shows i sh { sh with phase := .sleeping } hi
  have htime := hd.time sh (List.mem_of_getElem? hi)
  have h0 := total_nonneg hd.time
  have hm := hd.mstime
  simp only [Show.weight, Show.active, hp] at htotal
  apply inv_enterBlock
  · dsimp only
    rw [htotal]
    simp
    omega
  · exact htime
  · dsimp only
    omega
  · exact time_set hd.time hi rfl
  · exact hb

/-- The end of a sleep changes nothing that counts. -/
theorem inv_wake {i : Nat} {interrupted : Bool} (hd : Inv d) (h : step d (.wake i interrupted) = some d') : Inv d' := by
  obtain ⟨sh, hi, hp, rfl⟩ := wake_eq_some.1 h
  have htotal := @total_set d.shows i sh { sh with phase := .awake } hi
  simp only [Show.weight, Show.active, hp] at htotal
  have hsame : total (d.shows.set i { sh with phase := .awake }) = total d.shows := by
    rw [htotal]
    simp
  constructor
  · exact time_set hd.time hi rfl
  · exact hd.mstime.trans hsame.symm
  · exact hd.visible.trans (by rw [hsame])

theorem inv_leave {i : Nat} (hd : Inv d) (h : step d (.leave i) = some d') (hb : Bounded d') : Inv d' := by
  obtain ⟨sh, hi, hp, rfl⟩ := leave_eq_some.1 h
  have htotal := @total_set d.shows i sh { sh with phase := .left } hi
  have hm := hd.mstime
  -- the show is active until its second block, so the dialog is visible before it
  have hactive : 0 < total d.shows :=
    (total_pos_iff hd.time).2 ⟨sh, List.mem_of_getElem? hi, by simp [Show.active, hp]⟩
  have hb' : total (d.shows.set i { sh with phase := .left }) < 0x80000000 := by
    simpa [Bounded] using hb
  simp only [Show.weight, Show.active, hp] at htotal
  apply inv_leaveBlock
  · dsimp only
    rw [htotal]
    simp
    omega
  · exact time_set hd.time hi rfl
  · exact hd.visible.2 hactive
  · exact hb'

theorem step_inv (d : KeepNoticeDialog) (e : Event) (d' : KeepNoticeDialog) (hd : Inv d)
    (he : e.Positive ∧ ∀ d', step d e = some d' → Bounded d') (h : step d e = some d') : Inv d' := by
  cases e with
  | keepShow time =>
    cases h
    exact inv_keepShow hd he.1
  | enter i => exact inv_enter hd h (he.2 d' h)
  | wake i interrupted => exact inv_wake hd h
  | leave i => exact inv_leave hd h (he.2 d' h)

/-! ## Runs -/

/-- `mstime` is the sum of the durations of the active shows, and the dialog is visible when there is one. -/
structure Good (d : KeepNoticeDialog) : Prop where
  mstime : d.mstime = total d.shows
  visible : d.visible = true ↔ ∃ sh ∈ d.shows, sh.active = true

theorem Inv.good (h : Inv d) : Good d := ⟨h.mstime, h.visible.trans (total_pos_iff h.time)⟩

/-- The end of a show hides the dialog if and only if no other show is active. -/
def EndsRight (d : KeepNoticeDialog) : Event → Prop
  | .leave i => ∀ d', step d (.leave i) = some d' →
      (d'.visible = true ↔ ∃ j sh, j ≠ i ∧ d.shows[j]? = some sh ∧ sh.active = true)
  | _ => True

theorem Good.endsRight {i : Nat} (hd' : Good d') (h : step d (.leave i) = some d') :
    d'.visible = true ↔ ∃ j sh, j ≠ i ∧ d.shows[j]? = some sh ∧ sh.active = true := by
  rw [hd'.visible]
  obtain ⟨sh, hi, -, rfl⟩ := leave_eq_some.1 h
  simp only [leaveBlock_shows]
  constructor
  · rintro ⟨x, hx, ha⟩
    obtain ⟨j, hj⟩ := List.getElem?_of_mem hx
    rw [List.getElem?_set] at hj
    split_ifs at hj with hij hlt
    · cases hj
      cases ha
    · exact ⟨j, x, Ne.symm hij, hj, ha⟩
  · rintro ⟨j, x, hj, hx, ha⟩
    refine ⟨x, List.mem_of_getElem? (i := j) ?_, ha⟩
    rw [List.getElem?_set_ne (Ne.symm hj)]
    exact hx

/-- **Overlapping notices keep the dialog up**: for shows of positive durations, in every interleaving in which those
that are active at the same time have an `int` for the sum of their durations. -/
theorem overlapping_shows {es : List Event} (hpos : ∀ e ∈ es, e.Positive)
    (hb : Always Bounded step .new es) : Always Good step .new es ∧ Along EndsRight step .new es := by
  have halong := (along_of_forall KeepNoticeDialog.new hpos).and hb.along
  have hnew : Inv .new := ⟨by simp [KeepNoticeDialog.new], rfl, by simp [KeepNoticeDialog.new, total]⟩
  refine ⟨always_of_along step_inv (fun d h => h.good) halong hnew, along_of_along step_inv ?_ halong hnew⟩
  intro d e hd he
  cases e with
  | leave i => exact fun d' h => (step_inv d _ d' hd he h).good.endsRight h
  | keepShow time => trivial
  | enter i => trivial
  | wake i interrupted => trivial

/-- Two shows that overlap; the longer one is interrupted, and leaves first. -/
def twoShows : List Event :=
  [.keepShow 2000, .keepShow 500, .enter 0, .enter 1, .wake 0 true, .leave 0, .wake 1 false, .leave 1]

theorem overlapping_shows_two : Always Good step .new twoShows ∧ Along EndsRight step .new twoShows := by
  refine overlapping_shows ?_ ?_
  · simp [twoShows, Event.Positive]
  · decide

end OwonVds.Ui
