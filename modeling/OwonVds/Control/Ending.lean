import Mathlib.Tactic.IntervalCases
import OwonVds.Control.Terminate
import OwonVds.Lib.Ranking

/-!
# The end of the server thread

A thread that was told to exit has only so many steps left, wherever it stands, but for the draining of keys
(`listenerStep_left`); and after a call of `terminateServer` in a run in which no step came too early, it can always
take the next one, for there is a wakeup pending where it would wait. So it ends (`thread_ends`).
-/

namespace OwonVds.Control

open OwonVds.Trans

/-- The steps that are left for a thread that was told to exit. -/
def Pc.left : Pc → Nat
  | .openChannel => 7
  | .openSelector => 6
  | .bind => 5
  | .configure => 4
  | .register => 3
  | .assign => 2
  | .select => 4
  | .blocked => 3
  | .drain => 2
  | .test => 1
  | .ended => 0

theorem Pc.left_pos {pc : Pc} (h : pc ≠ .ended) : 0 < pc.left := by
  cases pc with
  | ended => exact absurd rfl h
  | _ => decide

variable {s t : Server} {io : Io}

theorem goOn_left {next : Server} (hs : s.pc ≠ .ended) (h : next.pc.left < s.pc.left) :
    (s.goOn io next).pc.left < s.pc.left := by
  unfold Server.goOn
  split
  · exact Pc.left_pos hs
  · exact h

theorem onChannel_left {next : Server} (hs : s.pc ≠ .ended) (h : next.pc.left < s.pc.left) :
    (s.onChannel io next).pc.left < s.pc.left := by
  unfold Server.onChannel
  split
  · exact Pc.left_pos hs
  · exact goOn_left hs h

/-- Each step of a thread that was told to exit is one less, but for the draining of a key that is not the last. -/
theorem listenerStep_left (hexit : s.isExit = true) (hio : ¬ (s.pc = .drain ∧ io = .more))
    (h : listenerStep s io = some t) : t.pc.left < s.pc.left := by
  have hs : s.pc ≠ .ended := by
    intro he
    unfold listenerStep at h
    rw [he] at h
    cases h
  unfold listenerStep at h
  split at h <;> rename_i hpc
  case h_1 | h_2 =>
    cases h
    exact goOn_left hs (by simp [hpc, Pc.left])
  case h_3 | h_4 | h_5 =>
    cases h
    exact onChannel_left hs (by simp [hpc, Pc.left])
  case h_6 =>
    cases h
    simp [hpc, Pc.left]
  case h_7 =>
    cases h
    simp [hexit, hpc, Pc.left]
  case h_8 =>
    split at h
    all_goals
      cases h
      exact goOn_left hs (by simp [hpc, Pc.left])
  case h_9 =>
    split at h
    · cases h
      exact goOn_left hs (by simp [hpc, Pc.left])
    · cases h
  case h_10 =>
    cases h
    rw [if_neg fun hm => hio ⟨hpc, hm⟩]
    exact goOn_left hs (by simp [hpc, Pc.left])
  case h_11 => cases h

/-- A thread that has not ended takes a step, unless it waits with no wakeup pending. -/
theorem exists_listenerStep (hs : s.pc ≠ .ended) (hw : s.pc = .blocked → s.wakeup = true) :
    ∃ t, listenerStep s .done = some t := by
  unfold listenerStep
  split <;> rename_i hpc
  case h_8 => exact ⟨_, if_pos (.inr rfl)⟩
  case h_9 => exact ⟨_, if_pos (.inl (hw hpc))⟩
  case h_11 => exact absurd hpc hs
  all_goals exact ⟨_, rfl⟩

/-- A step of the thread, other than the draining of a key that is not the last: that leaves it where it is. -/
def Ending (r' r : Race) : Prop :=
  ∃ io, ¬ (r.thread.pc = .drain ∧ io = .more) ∧ raceStep r (.listener io) = some r'

/-- The call is over, and no step came too early. -/
structure Race.Over (r : Race) : Prop where
  inv : r.Inv
  woken : r.Woken
  done : r.caller = .done

variable {r r' : Race}

theorem Race.Over.ending (hr : r.Over) (h : Ending r' r) : r'.Over ∧ r'.thread.pc.left < r.thread.pc.left := by
  obtain ⟨io, hio, hstep⟩ := h
  have htimely : Timely r (.listener io) := fun ht => by
    rw [hr.done] at ht
    cases ht.2.1
  obtain ⟨hinv, hwoken⟩ := raceStep_woken r _ r' ⟨hr.inv, hr.woken⟩ htimely hstep
  obtain ⟨t, ht, rfl⟩ := Option.map_eq_some_iff.1 hstep
  have hexit : r.thread.isExit = true := by
    rw [hr.inv.told, hr.done]
    rfl
  exact ⟨⟨hinv, hwoken, hr.done⟩, listenerStep_left hexit hio ht⟩

theorem Race.Over.exists_ending (hr : r.Over) (hne : r.thread.pc ≠ .ended) : ∃ r', Ending r' r := by
  have hw : r.thread.pc = .blocked → r.thread.wakeup = true := fun hpc =>
    hr.woken.pending (by rw [hr.done]; rfl) (.inr hpc)
  obtain ⟨t, ht⟩ := exists_listenerStep hne hw
  refine ⟨{ r with thread := t }, .done, fun h => (by cases h.2), ?_⟩
  show (listenerStep r.thread .done).map _ = _
  rw [ht]
  rfl

/-- **The thread ends.** When a call of `terminateServer` is over, in a run in which no step came too early: whatever
the calls of the thread end with, there is an end to its steps, and where it takes no more it has ended. -/
theorem thread_ends (port : Int) {es : List RaceEvent} (ht : Along Timely raceStep (.started port) es)
    (h : run raceStep (.started port) es = some r) (hdone : r.caller = .done) :
    Acc Ending r ∧ ∀ r', Relation.ReflTransGen (fun q q' => Ending q' q) r r' →
      (∃ r'', Ending r'' r') ∨ r'.thread.pc = .ended := by
  obtain ⟨hinv, hwoken⟩ := run_inv_along raceStep_woken ht h ⟨started_inv port, nofun, nofun⟩
  have hover : r.Over := ⟨hinv, hwoken, hdone⟩
  constructor
  · exact Ranking.acc_of_rank (fun q => q.thread.pc.left) (fun q q' hq hstep => hq.ending hstep) hover
  · intro r' hreach
    have hover' : r'.Over := by
      induction hreach with
      | refl => exact hover
      | tail _ hstep ih => exact (ih.ending hstep).1
    by_cases hne : r'.thread.pc = .ended
    · exact .inr hne
    · exact .inl (hover'.exists_ending hne)

/-- The thread waits in `select`, and is woken. -/
def toldWhileWaiting : List RaceEvent :=
  List.replicate 7 (RaceEvent.listener .done) ++ [.listener .more] ++ List.replicate 5 RaceEvent.terminate

theorem toldWhileWaiting_timely : Along Timely raceStep (.started 5188) toldWhileWaiting := by
  refine along_of_take fun i hi r hr => ?_
  have hi' : i < 13 := hi
  interval_cases i
  all_goals
    cases hr
    first
    | exact fun h => absurd h.1 (by decide)
    | exact fun _ => rfl
    | exact fun h => absurd h.2.1 (by decide)

theorem thread_ends_waiting : ∃ r, run raceStep (.started 5188) toldWhileWaiting = some r ∧
    r.thread.pc = .blocked ∧ Acc Ending r ∧ ∃ r', Ending r' r := by
  have h : run raceStep (.started 5188) toldWhileWaiting =
      some ⟨⟨5188, .blocked, some .closed, true, true, true⟩, .done⟩ := rfl
  obtain ⟨hacc, hends⟩ := thread_ends 5188 toldWhileWaiting_timely h rfl
  refine ⟨_, h, rfl, hacc, ?_⟩
  rcases hends _ .refl with hstep | hend
  · exact hstep
  · cases hend

end OwonVds.Control
