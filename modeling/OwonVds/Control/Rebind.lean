import OwonVds.Control.ServerControl

/-!
# A port that cannot be bound

`setPort` stops the old server and overwrites `mPort` before another thread tries to bind the new port, and what comes
of that reaches no one. `startUp` runs the thread of a new server until it is in `listen` or has failed, with a given
outcome of the bind.

So a change of the port is atomic exactly where the old server is not touched, or where the port is usable and the bind
succeeds (`setPort_iff`); the port 65535 is valid and is refused.
-/

namespace OwonVds.Control

open OwonVds.Exec OwonVds.Trans

/-- How the calls of a thread that starts end: none fails but the bind, if it does. -/
def Server.outcome (binds : Bool) (s : Server) : Io := if s.pc = .bind ∧ binds = false then .failed else .done

/-- The thread runs for as many steps as given, unless it is in `listen` or has failed before. -/
def Server.startUp (binds : Bool) : Nat → Server → Server
  | 0, s => s
  | n + 1, s =>
    if s.pc.starts then
      match listenerStep s (s.outcome binds) with
      | some t => t.startUp binds n
      | none => s
    else s

/-- The steps up to the assignment of the selector. -/
def startUpSteps : Nat := 6

/-- The thread of the server referred to has reached `listen` or has failed. -/
def ServerControl.settled (binds : Bool) (c : ServerControl) : ServerControl :=
  { c with socketServer := c.socketServer.map (Server.startUp binds startUpSteps) }

/-- The server referred to listens on the port, which `getPort` returns and `persist` writes. -/
def ServerControl.Serves (port : Int) (c : ServerControl) : Prop :=
  (∃ server, c.socketServer = some server ∧ server.Listening port) ∧ getPort c = .ok port c ∧ c.mPort = port

/-- A change of the port from `q` to `p` that took place, or that left the old server as it was; and it takes place for
every valid port that can be bound. -/
structure Atomic (old : Server) (q p : Int) (binds returned : Bool) (c : ServerControl) : Prop where
  change : returned = true ∧ c.Serves p ∨ returned = false ∧ c.socketServer = some old ∧ c.Serves q
  valid : 1 ≤ p → p ≤ 65535 → p ≠ q → binds = true → returned = true

/-! ## The start of a thread -/

variable {binds : Bool} {s : Server}

/-- The steps that are left before `listen`. -/
def Pc.rank : Pc → Nat
  | .openChannel => 6
  | .openSelector => 5
  | .bind => 4
  | .configure => 3
  | .register => 2
  | .assign => 1
  | _ => 0

theorem Pc.rank_pos {pc : Pc} (h : pc.starts = true) : 0 < pc.rank := by
  cases pc <;> cases h <;> decide

/-- A thread that starts comes closer to `listen`, or ends. -/
theorem listenerStep_rank (io : Io) (h : s.pc.starts = true) :
    ∃ t, listenerStep s io = some t ∧ t.pc.rank < s.pc.rank := by
  have hgo : ∀ next : Server, next.pc.rank < s.pc.rank → (s.goOn io next).pc.rank < s.pc.rank := by
    intro next hn
    unfold Server.goOn
    split
    · exact Pc.rank_pos h
    · exact hn
  have hch : ∀ next : Server, next.pc.rank < s.pc.rank → (s.onChannel io next).pc.rank < s.pc.rank := by
    intro next hn
    unfold Server.onChannel
    split
    · exact Pc.rank_pos h
    · exact hgo next hn
  unfold listenerStep
  split <;> rename_i hpc
  case h_1 | h_2 => exact ⟨_, rfl, hgo _ (hpc ▸ Nat.lt_succ_self _)⟩
  case h_3 | h_4 | h_5 => exact ⟨_, rfl, hch _ (hpc ▸ Nat.lt_succ_self _)⟩
  case h_6 => exact ⟨_, rfl, hpc ▸ Nat.lt_succ_self _⟩
  all_goals
    rw [hpc] at h
    cases h

theorem startUp_of_not_starts (h : s.pc.starts = false) (n : Nat) : s.startUp binds n = s := by
  cases n with
  | zero => rfl
  | succ n =>
    unfold Server.startUp
    rw [h]
    rfl

/-- The start is over after as many steps as the thread is away from `listen`. -/
theorem startUp_starts {n : Nat} (h : s.pc.rank ≤ n) : (s.startUp binds n).pc.starts = false := by
  induction n generalizing s with
  | zero =>
    apply Bool.eq_false_iff.2
    intro hst
    exact Nat.not_lt.2 h (Pc.rank_pos hst)
  | succ n ih =>
    cases hst : s.pc.starts with
    | false => rw [startUp_of_not_starts hst]; exact hst
    | true =>
      obtain ⟨t, ht, hlt⟩ := listenerStep_rank (s.outcome binds) hst
      unfold Server.startUp
      rw [hst, ht]
      exact ih (by omega)

/-- `startUp` is a run of the thread. -/
theorem startUp_run (binds : Bool) (n : Nat) (s : Server) :
    ∃ ios, run listenerStep s ios = some (s.startUp binds n) := by
  induction n generalizing s with
  | zero => exact ⟨[], rfl⟩
  | succ n ih =>
    unfold Server.startUp
    split
    · split
      · rename_i t ht
        obtain ⟨ios, hios⟩ := ih t
        exact ⟨_ :: ios, run_cons_eq.2 ⟨t, ht, hios⟩⟩
      · exact ⟨[], rfl⟩
    · exact ⟨[], rfl⟩

/-- **Enough steps**: every thread is in `listen` or has failed. -/
theorem settled_done (s : Server) : (s.startUp binds startUpSteps).pc.starts = false := by
  apply startUp_starts
  show _ ≤ 6
  cases s.pc <;> decide

theorem startUp_succ {t : Server} (hs : s.pc.starts = true) (h : listenerStep s (s.outcome binds) = some t) (n : Nat) :
    s.startUp binds (n + 1) = t.startUp binds n := by
  rw [Server.startUp, if_pos hs, h]

/-- A thread whose bind succeeds goes through all of `getSelector`. -/
theorem startUp_bound (port : Int) : (Server.started port).startUp true startUpSteps =
    ⟨port, .test, some .bound, true, false, false⟩ := by
  calc (⟨port, .openChannel, none, false, false, false⟩ : Server).startUp true 6
    _ = (⟨port, .openSelector, some .unbound, false, false, false⟩ : Server).startUp true 5 := startUp_succ rfl rfl 5
    _ = (⟨port, .bind, some .unbound, false, false, false⟩ : Server).startUp true 4 := startUp_succ rfl rfl 4
    _ = (⟨port, .configure, some .bound, false, false, false⟩ : Server).startUp true 3 := startUp_succ rfl rfl 3
    _ = (⟨port, .register, some .bound, false, false, false⟩ : Server).startUp true 2 := startUp_succ rfl rfl 2
    _ = (⟨port, .assign, some .bound, false, false, false⟩ : Server).startUp true 1 := startUp_succ rfl rfl 1
    _ = (⟨port, .test, some .bound, true, false, false⟩ : Server).startUp true 0 := startUp_succ rfl rfl 0

/-- A thread whose bind fails ends with it. -/
theorem startUp_unbound (port : Int) : (Server.started port).startUp false startUpSteps =
    ⟨port, .ended, some .unbound, false, false, false⟩ := by
  calc (⟨port, .openChannel, none, false, false, false⟩ : Server).startUp false 6
    _ = (⟨port, .openSelector, some .unbound, false, false, false⟩ : Server).startUp false 5 := startUp_succ rfl rfl 5
    _ = (⟨port, .bind, some .unbound, false, false, false⟩ : Server).startUp false 4 := startUp_succ rfl rfl 4
    _ = (⟨port, .ended, some .unbound, false, false, false⟩ : Server).startUp false 3 := startUp_succ rfl rfl 3
    _ = ⟨port, .ended, some .unbound, false, false, false⟩ := startUp_of_not_starts rfl 3

/-- A new thread comes to listen on its port if and only if the bind succeeds. -/
theorem startUp_started (binds : Bool) (port : Int) :
    ((Server.started port).startUp binds startUpSteps).Listening port ↔ binds = true := by
  cases binds with
  | true =>
    rw [startUp_bound]
    exact iff_of_true ⟨rfl, rfl, rfl, rfl⟩ rfl
  | false =>
    rw [startUp_unbound]
    exact iff_of_false (fun h => nomatch h.2.1) nofun

/-! ## Changing the port -/

variable {c : ServerControl} {old : Server} {p q : Int}

theorem starts_of_listens {pc : Pc} (h : pc.listens = true) : pc.starts = false := by
  cases pc <;> first | rfl | cases h

/-- A server that listens is not started again. -/
theorem settled_of_listening (h : c.socketServer = some s) (hl : s.Listening q) : c.settled binds = c := by
  unfold ServerControl.settled
  rw [h, Option.map_some, startUp_of_not_starts (starts_of_listens hl.2.1), ← h]

theorem serves_of_listening (h : c.socketServer = some s) (hl : s.Listening q) (hm : c.mPort = q) : c.Serves q := by
  refine ⟨⟨s, h, hl⟩, ?_, hm⟩
  rw [getPort_some h, hl.1]

/-- The old server is not touched: only the valid port 65535 is refused wrongly. -/
theorem atomic_of_refused (ho : c.socketServer = some old) (hl : old.Listening q) (hm : c.mPort = q)
    (hp : p = q ∨ usable p = false) : Atomic old q p binds false (c.settled binds) ↔
      p = q ∨ p < 1 ∨ 65535 < p ∨ (p < 65535 ↔ binds = true) := by
  have hrange : p = q ∨ ¬ (0 < p ∧ p < 65535) := by
    rwa [← usable_iff, Bool.not_eq_true]
  have hserves : c.Serves q := serves_of_listening ho hl hm
  rw [settled_of_listening ho hl]
  constructor
  · rintro ⟨-, hvalid⟩
    by_cases hq : p = q
    · exact .inl hq
    by_cases hb : binds = true
    · have hout : ¬ (1 ≤ p ∧ p ≤ 65535) := fun h => nomatch hvalid h.1 h.2 hq hb
      rw [iff_true_right hb]
      omega
    · rw [iff_false_right hb]
      omega
  · intro hcond
    refine ⟨.inr ⟨rfl, ho, hserves⟩, fun h1 h2 hq hb => ?_⟩
    rw [iff_true_right hb] at hcond
    omega

/-- The old server is stopped: the change is as good as the bind. -/
theorem atomic_of_done (hc : c.socketServer = some (.started p)) (hm : c.mPort = p) :
    Atomic old q p binds true (c.settled binds) ↔ binds = true := by
  have hs : (c.settled binds).socketServer = some ((Server.started p).startUp binds startUpSteps) := by
    unfold ServerControl.settled
    rw [hc, Option.map_some]
  constructor
  · rintro ⟨⟨-, ⟨t, ht, hlt⟩, -⟩ | ⟨hf, -⟩, -⟩
    · rw [hs, Option.some_inj] at ht
      exact (startUp_started binds p).1 (ht ▸ hlt)
    · cases hf
  · intro hb
    have hserves : (c.settled binds).Serves p := serves_of_listening hs ((startUp_started binds p).2 hb) hm
    exact ⟨.inl ⟨rfl, hserves⟩, fun _ _ _ _ => rfl⟩

/-- **Exactly when a change of the port is atomic**, for each outcome of the bind. -/
theorem setPort_iff (ho : c.socketServer = some old) (hl : old.Listening q) (hm : c.mPort = q) (p : Int)
    (binds : Bool) : ∃ returned c', setPort p c = .ok returned c' ∧
      (Atomic old q p binds returned (c'.settled binds) ↔
        p = q ∨ p < 1 ∨ 65535 < p ∨ (p < 65535 ↔ binds = true)) := by
  by_cases hp : p = q ∨ usable p = false
  · refine ⟨false, c, setPort_refused ho ?_, atomic_of_refused ho hl hm hp⟩
    rwa [hl.1]
  · rw [not_or, Bool.not_eq_false] at hp
    obtain ⟨hne, hu⟩ := hp
    obtain ⟨hport, -, hch, -⟩ := hl
    have hdone := setPort_done ho (by rwa [hport]) hu (by rw [hch]; rfl)
    refine ⟨true, _, hdone, ?_⟩
    -- the port is in range, so that its bind decides
    have hrange := usable_iff.1 hu
    rw [atomic_of_done (p := p) rfl rfl, or_iff_right hne, or_iff_right (by omega), or_iff_right (by omega),
      iff_true_left hrange.2]

/-- The server of `c` listens on 5188. -/
def serving : ServerControl := ⟨some ⟨5188, .blocked, some .bound, true, false, false⟩, 5188, []⟩

/-- A port that is in use is reported and saved, and no one listens. -/
theorem setPort_unserved : ∃ c, setPort 6000 serving = .ok true c ∧ (c.settled false).mPort = 6000 ∧
    getPort (c.settled false) = .ok 6000 (c.settled false) ∧
    (∀ server, (c.settled false).socketServer = some server → server.pc = .ended) ∧
    ¬ Atomic ⟨5188, .blocked, some .bound, true, false, false⟩ 5188 6000 false true (c.settled false) := by
  refine ⟨_, rfl, rfl, rfl, fun server h => by cases h; rfl, ?_⟩
  rintro ⟨⟨-, ⟨server, h, hl⟩, -⟩ | ⟨h, -⟩, -⟩
  · cases h
    cases hl.2.1
  · cases h

theorem setPort_iff_serving : ∃ returned c', setPort 6000 serving = .ok returned c' ∧
    (Atomic ⟨5188, .blocked, some .bound, true, false, false⟩ 5188 6000 false returned (c'.settled false) ↔
      (6000 : Int) = 5188 ∨ (6000 : Int) < 1 ∨ (65535 : Int) < 6000 ∨ ((6000 : Int) < 65535 ↔ false = true)) :=
  setPort_iff (c := serving) rfl ⟨rfl, rfl, rfl, rfl⟩ rfl 6000 false

end OwonVds.Control
