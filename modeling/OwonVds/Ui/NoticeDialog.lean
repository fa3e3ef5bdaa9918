import OwonVds.Ui.Notice

/-!
# The notice that does not count

`NoticeDialog` is the older of the two dialogs. Its `nofading` shows the dialog, sleeps, and disposes of it; it keeps no
account of the other shows. The two dialogs run the same threads, so one sequence of events is a run of both
(`bothStep`).

`NoticeDialog` is never visible without an active show, and so not longer than `KeepNoticeDialog`; it is visible as long
as that one if and only if no show ends while another is active (`dialogs_agree_iff`).
-/

namespace OwonVds.Ui

open OwonVds.Trans

structure NoticeDialog where
  visible : Bool
  /-- The threads that `keepShow` started. -/
  shows : List Show
  deriving DecidableEq, Repr

def NoticeDialog.new : NoticeDialog := ⟨false, []⟩

/-- Thread `i` goes from phase `p` to phase `q`, and leaves the dialog visible or not. -/
def NoticeDialog.advance (d : NoticeDialog) (i : Nat) (p q : Phase) (visible : Bool) : Option NoticeDialog :=
  match d.shows[i]? with
  | some sh => if sh.phase = p then some ⟨visible, d.shows.set i { sh with phase := q }⟩ else none
  | none => none

/-- `nofading`: `setVisible(true)`, `Thread.sleep`, `dispose()`. -/
def NoticeDialog.step (d : NoticeDialog) : Event → Option NoticeDialog
  | .keepShow time => some { d with shows := d.shows ++ [⟨time, .starting⟩] }
  | .enter i => d.advance i .starting .sleeping true
  | .wake i _ => d.advance i .sleeping .awake d.visible
  | .leave i => d.advance i .awake .left false

/-- The two dialogs under the same events. -/
def bothStep (d : KeepNoticeDialog × NoticeDialog) (e : Event) : Option (KeepNoticeDialog × NoticeDialog) :=
  (step d.1 e).bind fun k => (d.2.step e).map fun n => (k, n)

variable {d d' : KeepNoticeDialog × NoticeDialog} {n n' : NoticeDialog} {e : Event}

/-! ## Active shows -/

def Active (shows : List Show) : Prop := ∃ sh ∈ shows, sh.active = true

theorem active_set {shows : List Show} {i : Nat} {sh : Show} (hi : i < shows.length) :
    Active (shows.set i sh) ↔ sh.active = true ∨ ∃ j x, j ≠ i ∧ shows[j]? = some x ∧ x.active = true := by
  constructor
  · rintro ⟨x, hx, ha⟩
    obtain ⟨j, hj⟩ := List.getElem?_of_mem hx
    by_cases hij : i = j
    · subst hij
      rw [List.getElem?_set_self hi] at hj
      cases hj
      exact .inl ha
    · rw [List.getElem?_set_ne hij] at hj
      exact .inr ⟨j, x, Ne.symm hij, hj, ha⟩
  · rintro (ha | ⟨j, x, hj, hx, ha⟩)
    · exact ⟨sh, List.mem_of_getElem? (List.getElem?_set_self hi), ha⟩
    · exact ⟨x, List.mem_of_getElem? ((List.getElem?_set_ne (Ne.symm hj)).trans hx), ha⟩

/-- The threads of the two dialogs do the same. -/
theorem both_shows (h : bothStep d e = some d') (hs : d.2.shows = d.1.shows) : d'.2.shows = d'.1.shows := by
  obtain ⟨k, hk, h⟩ := Option.bind_eq_some_iff.1 h
  obtain ⟨n, hn, rfl⟩ := Option.map_eq_some_iff.1 h
  have hadvance : ∀ (block : Int → KeepNoticeDialog → KeepNoticeDialog) {i : Nat} {p q : Phase} {v : Bool},
      (∀ t x, (block t x).shows = x.shows) → d.1.advance i p q block = some k → d.2.advance i p q v = some n →
        n.shows = k.shows := by
    intro block i p q v hblock hk hn
    obtain ⟨sh, hi, hp, rfl⟩ := advance_eq_some.1 hk
    unfold NoticeDialog.advance at hn
    rw [hs, hi] at hn
    dsimp only at hn
    rw [if_pos hp] at hn
    cases hn
    exact (hblock sh.time { d.1 with shows := d.1.shows.set i { sh with phase := q } }).symm
  cases e with
  | keepShow time =>
    cases hk
    cases hn
    exact congrArg (· ++ _) hs
  | enter i => exact hadvance enterBlock (fun _ _ => rfl) hk hn
  | wake i interrupted => exact hadvance (fun _ x => x) (fun _ _ => rfl) hk hn
  | leave i => exact hadvance leaveBlock leaveBlock_shows hk hn

/-! ## The dialog that does not count -/

/-- A show that ends is the last one. -/
def LeavesLast (shows : List Show) : Event → Prop
  | .leave i => ∀ j x, j ≠ i → shows[j]? = some x → x.active = false
  | _ => True

/-- What a step does to the dialog: its threads, and what it leaves visible. -/
theorem notice_cases (h : n.step e = some n') :
    (∃ time, e = .keepShow time ∧ n' = { n with shows := n.shows ++ [⟨time, .starting⟩] }) ∨
      (∃ i sh, e = .enter i ∧ n.shows[i]? = some sh ∧ sh.phase = .starting ∧
        n' = ⟨true, n.shows.set i { sh with phase := .sleeping }⟩) ∨
      (∃ i interrupted sh, e = .wake i interrupted ∧ n.shows[i]? = some sh ∧ sh.phase = .sleeping ∧
        n' = ⟨n.visible, n.shows.set i { sh with phase := .awake }⟩) ∨
      ∃ i sh, e = .leave i ∧ n.shows[i]? = some sh ∧ sh.phase = .awake ∧
        n' = ⟨false, n.shows.set i { sh with phase := .left }⟩ := by
  have hadvance : ∀ {i : Nat} {p q : Phase} {v : Bool}, n.advance i p q v = some n' →
      ∃ sh, n.shows[i]? = some sh ∧ sh.phase = p ∧ n' = ⟨v, n.shows.set i { sh with phase := q }⟩ := by
    intro i p q v h
    unfold NoticeDialog.advance at h
    split at h
    · rename_i sh hi
      split_ifs at h with hp
      cases h
      exact ⟨sh, hi, hp, rfl⟩
    · cases h
  cases e with
  | keepShow time =>
    cases h
    exact .inl ⟨time, rfl, rfl⟩
  | enter i =>
    obtain ⟨sh, hi, hp, rfl⟩ := hadvance h
    exact .inr (.inl ⟨i, sh, rfl, hi, hp, rfl⟩)
  | wake i interrupted =>
    obtain ⟨sh, hi, hp, rfl⟩ := hadvance h
    exact .inr (.inr (.inl ⟨i, interrupted, sh, rfl, hi, hp, rfl⟩))
  | leave i =>
    obtain ⟨sh, hi, hp, rfl⟩ := hadvance h
    exact .inr (.inr (.inr ⟨i, sh, rfl, hi, hp, rfl⟩))

/-- A show that wakes up was active, and is. -/
theorem active_wake {shows : List Show} {i : Nat} {sh : Show} (hi : shows[i]? = some sh) (hp : sh.phase = .sleeping) :
    Active (shows.set i { sh with phase := .awake }) ∧ Active shows :=
  ⟨(active_set (List.getElem?_eq_some_iff.1 hi).1).2 (.inl rfl),
    sh, List.mem_of_getElem? hi, by simp [Show.active, hp]⟩

theorem active_concat {shows : List Show} {time : Int} : Active (shows ++ [⟨time, .starting⟩]) ↔ Active shows := by
  simp [Active, Show.active]

/-- The dialog is visible with an active show only. -/
theorem notice_active (h : n.step e = some n') (hn : n.visible = true → Active n.shows) :
    n'.visible = true → Active n'.shows := by
  rcases notice_cases h with ⟨time, rfl, rfl⟩ | ⟨i, sh, rfl, hi, hp, rfl⟩ | ⟨i, interrupted, sh, rfl, hi, hp, rfl⟩ |
    ⟨i, sh, rfl, hi, hp, rfl⟩
  · exact fun hv => active_concat.2 (hn hv)
  · exact fun _ => (active_set (List.getElem?_eq_some_iff.1 hi).1).2 (.inl rfl)
  · exact fun _ => (active_wake hi hp).1
  · exact fun hv => absurd hv Bool.false_ne_true

/-- Visible as long as a show is active. -/
def NoticeDialog.Truthful (n : NoticeDialog) : Prop := n.visible = true ↔ Active n.shows

/-- The dialog stays truthful but for a show that ends while another is active. -/
theorem truthful_step_iff (hn : n.Truthful) (h : n.step e = some n') : n'.Truthful ↔ LeavesLast n.shows e := by
  rcases notice_cases h with ⟨time, rfl, rfl⟩ | ⟨i, sh, rfl, hi, hp, rfl⟩ | ⟨i, interrupted, sh, rfl, hi, hp, rfl⟩ |
    ⟨i, sh, rfl, hi, hp, rfl⟩
  · exact iff_of_true (hn.trans active_concat.symm) trivial
  · exact iff_of_true (iff_of_true rfl ((active_set (List.getElem?_eq_some_iff.1 hi).1).2 (.inl rfl))) trivial
  · obtain ⟨hafter, hbefore⟩ := active_wake hi hp
    exact iff_of_true (iff_of_true (hn.2 hbefore) hafter) trivial
  · unfold NoticeDialog.Truthful
    dsimp only
    rw [active_set (List.getElem?_eq_some_iff.1 hi).1]
    simp only [Bool.false_eq_true, false_iff, Show.active, false_or, LeavesLast]
    constructor
    · intro hno j x hj hx
      rw [Bool.eq_false_iff]
      exact fun ha => hno ⟨j, x, hj, hx, ha⟩
    · rintro hall ⟨j, x, hj, hx, ha⟩
      exact absurd ((hall j x hj hx).symm.trans ha) Bool.false_ne_true

/-! ## The two dialogs -/

/-- The same threads; the counting dialog has its invariant, the other is visible with an active show only. -/
structure Both (d : KeepNoticeDialog × NoticeDialog) : Prop where
  keep : Inv d.1
  shows : d.2.shows = d.1.shows
  notice : d.2.visible = true → Active d.2.shows

/-- The counting dialog is visible as long as a show is active. -/
theorem Both.visible (h : Both d) : d.1.visible = true ↔ Active d.2.shows := by
  rw [h.shows]
  exact h.keep.visible.trans (total_pos_iff h.keep.time)

theorem both_step (hd : Both d) (he : e.Positive ∧ ∀ d', bothStep d e = some d' → Bounded d'.1)
    (h : bothStep d e = some d') : Both d' := by
  have hshows := both_shows h hd.shows
  have hbounded := he.2 d' h
  obtain ⟨k, hk, hmap⟩ := Option.bind_eq_some_iff.1 h
  obtain ⟨n, hn, rfl⟩ := Option.map_eq_some_iff.1 hmap
  refine ⟨step_inv d.1 e k hd.keep ⟨he.1, fun k' hk' => ?_⟩ hk, hshows, notice_active hn hd.notice⟩
  rw [hk] at hk'
  cases hk'
  exact hbounded

theorem both_new : Both (.new, .new) where
  keep := ⟨by simp [KeepNoticeDialog.new], rfl, by simp [KeepNoticeDialog.new, total]⟩
  shows := rfl
  notice := by simp [NoticeDialog.new]

/-- **The two dialogs**, in every interleaving of shows with positive durations whose active ones have an `int` for the
sum of their durations: the one that does not count is never visible when the other is not, and they are visible at the
same times if and only if no show ends while another is active. -/
theorem dialogs_agree_iff {es : List Event} (hpos : ∀ e ∈ es, e.Positive)
    (hb : Always (fun d => Bounded d.1) bothStep (.new, .new) es) {t : KeepNoticeDialog × NoticeDialog}
    (h : run bothStep (.new, .new) es = some t) :
    Always (fun d => d.2.visible = true → d.1.visible = true) bothStep (.new, .new) es ∧
      (Always (fun d => d.2.visible = d.1.visible) bothStep (.new, .new) es ↔
        Along (fun d e => LeavesLast d.2.shows e) bothStep (.new, .new) es) := by
  have hevery : Along (fun _ e => e.Positive) bothStep (.new, .new) es := along_of_forall _ hpos
  have halong := hevery.and hb.along
  refine ⟨always_of_along (I := Both) (fun d e d' hd he h => both_step hd he h)
    (fun d hd hv => hd.visible.2 (hd.notice hv)) halong both_new, ?_⟩
  refine always_iff_along_of (I := Both) (fun d e d' hd he h => both_step hd he h) (fun d e d' hd hg he h => ?_)
    halong h both_new rfl
  have hd' := both_step hd he h
  have htruthful : ∀ {x : KeepNoticeDialog × NoticeDialog}, Both x → (x.2.visible = x.1.visible ↔ x.2.Truthful) := by
    intro x hx
    unfold NoticeDialog.Truthful
    rw [← hx.visible, Bool.eq_iff_iff]
  rw [htruthful hd']
  obtain ⟨k, -, hmap⟩ := Option.bind_eq_some_iff.1 h
  obtain ⟨n, hn, rfl⟩ := Option.map_eq_some_iff.1 hmap
  exact truthful_step_iff ((htruthful hd).1 hg) hn

/-- The longer of two shows leaves first, and hides the dialog that does not count. -/
theorem dialogs_agree_iff_two : (∃ t, run bothStep (.new, .new) twoShows = some t) ∧
    ¬ Along (fun d e => LeavesLast d.2.shows e) bothStep (.new, .new) twoShows := by
  obtain ⟨t, ht⟩ := Option.isSome_iff_exists.1 (by decide : (run bothStep (.new, .new) twoShows).isSome = true)
  refine ⟨⟨t, ht⟩, ?_⟩
  have hpos : ∀ e ∈ twoShows, e.Positive := by
    simp [twoShows, Event.Positive]
  have hb : Always (fun d => Bounded d.1) bothStep (.new, .new) twoShows := by
    decide
  rw [← (dialogs_agree_iff hpos hb ht).2]
  decide

end OwonVds.Ui
