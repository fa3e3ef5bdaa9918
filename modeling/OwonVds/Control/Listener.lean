import OwonVds.Lib.Exec
import OwonVds.Lib.Trans

/-!
# The thread of the SCPI server

`run`, `getSelector` and `listen` of `Server`, with one step for each call that can fail or block and for each access to
a field that another thread uses (`listenerStep`). An `IOException` ends the thread: both methods print it and return.
Draining the selected keys, `process`, is here only how it ends.

`terminateServer` is the program other threads call. All it can do to the thread is `Server.terminated`, and it throws
exactly while the thread has not opened its channel (`terminateServer_run`).
-/

namespace OwonVds.Control

open OwonVds.Exec OwonVds.Trans

/-- Where the thread stands. -/
inductive Pc
  | openChannel | openSelector | bind | configure | register
  /-- The selector that `getSelector` returns is about to be assigned. -/
  | assign
  /-- `while (!isExit)` -/
  | test
  /-- `selector.select()` is about to be called. -/
  | select
  /-- Inside `select`, waiting. -/
  | blocked
  | drain
  | ended
  deriving DecidableEq, Repr

inductive Channel
  | unbound | bound | closed
  deriving DecidableEq, Repr

/-- How a call ends; `more` where it is not over yet: `select` has no key ready, or more keys are to be drained. -/
inductive Io
  | done | failed | more
  deriving DecidableEq, Repr

structure Server where
  mPort : Int
  pc : Pc
  server : Option Channel
  /-- The field `selector` is assigned. -/
  selector : Bool
  /-- A wakeup of the selector is pending. -/
  wakeup : Bool
  isExit : Bool
  deriving DecidableEq, Repr

/-- `new Server(this, port)`, started. -/
def Server.started (port : Int) : Server := ⟨port, .openChannel, none, false, false, false⟩

/-- The thread goes on in `next`, unless the call throws. -/
def Server.goOn (s : Server) (io : Io) (next : Server) : Server :=
  if io = .failed then { s with pc := .ended } else next

/-- A call on the channel: it throws on a closed one. -/
def Server.onChannel (s : Server) (io : Io) (next : Server) : Server :=
  if s.server = some .closed then { s with pc := .ended } else s.goOn io next

def listenerStep (s : Server) (io : Io) : Option Server :=
  match s.pc with
  | .openChannel => some (s.goOn io { s with pc := .openSelector, server := some .unbound })
  | .openSelector => some (s.goOn io { s with pc := .bind })
  | .bind => some (s.onChannel io { s with pc := .configure, server := some .bound })
  | .configure => some (s.onChannel io { s with pc := .register })
  | .register => some (s.onChannel io { s with pc := .assign })
  | .assign => some { s with pc := .test, selector := true }
  | .test => some { s with pc := if s.isExit then .ended else .select }
  | .select =>
    if s.wakeup ∨ io = .done then some (s.goOn io { s with pc := .drain, wakeup := false })
    else some (s.goOn io { s with pc := .blocked })
  | .blocked =>
    -- a call that waits ends by a wakeup, a ready key or an exception, not by a closed channel
    if s.wakeup ∨ io ≠ .more then some (s.goOn io { s with pc := .drain, wakeup := false }) else none
  | .drain => some (s.goOn io (if io = .more then s else { s with pc := .test }))
  | .ended => none

/-- The thread is in `listen`. -/
def Pc.listens : Pc → Bool
  | .test | .select | .blocked | .drain => true
  | _ => false

/-- The thread is in `getSelector`, or about to assign what it returned. -/
def Pc.starts : Pc → Bool
  | .openChannel | .openSelector | .bind | .configure | .register | .assign => true
  | _ => false

/-- The thread has not ended, and has not been told to. -/
def Server.Running (s : Server) : Prop := s.pc ≠ .ended ∧ s.isExit = false

/-- The thread serves its port. -/
def Server.Listening (port : Int) (s : Server) : Prop :=
  s.mPort = port ∧ s.pc.listens = true ∧ s.server = some .bound ∧ s.isExit = false

/-! ## What a step can do -/

variable {s t : Server} {io : Io}

/-- What a step of the thread can do, whatever the calls it makes end with. -/
inductive Moves (s : Server) : Server → Prop
  | ends (h : s.pc ≠ .ended) : Moves s { s with pc := .ended }
  | opens (h : s.pc = .openChannel) : Moves s { s with pc := .openSelector, server := some .unbound }
  | prepares {pc : Pc} {c : Option Channel} (h : s.pc.starts = true) (hne : s.pc ≠ .openChannel)
      (hpc : pc.starts = true) (hc : s.server.isSome = true → c.isSome = true) :
      Moves s { s with pc := pc, server := c }
  | assigns (h : s.pc = .assign) : Moves s { s with pc := .test, selector := true }
  | enters (h : s.pc = .test) (he : s.isExit = false) : Moves s { s with pc := .select }
  | blocks (h : s.pc = .select) (hw : s.wakeup = false) : Moves s { s with pc := .blocked }
  | returns (h : s.pc = .select ∨ s.pc = .blocked) : Moves s { s with pc := .drain, wakeup := false }
  | drains (h : s.pc = .drain) {pc : Pc} (hpc : pc = .drain ∨ pc = .test) : Moves s { s with pc := pc }

theorem moves_goOn {next : Server} (hs : s.pc ≠ .ended) (h : Moves s next) : Moves s (s.goOn io next) := by
  unfold Server.goOn
  split
  · exact .ends hs
  · exact h

theorem moves_onChannel {next : Server} (hs : s.pc ≠ .ended) (h : Moves s next) : Moves s (s.onChannel io next) := by
  unfold Server.onChannel
  split
  · exact .ends hs
  · exact moves_goOn hs h

theorem listenerStep_moves (h : listenerStep s io = some t) : Moves s t := by
  unfold listenerStep at h
  have hs : s.pc ≠ .ended := by
    intro he
    rw [he] at h
    cases h
  -- one case for each place the thread can stand in
  split at h <;> rename_i hpc
  · cases h
    exact moves_goOn hs (.opens hpc)
  · cases h
    exact moves_goOn hs (.prepares (by rw [hpc]; rfl) (by rw [hpc]; nofun) rfl id)
  · cases h
    exact moves_onChannel hs (.prepares (by rw [hpc]; rfl) (by rw [hpc]; nofun) rfl fun _ => rfl)
  · cases h
    exact moves_onChannel hs (.prepares (by rw [hpc]; rfl) (by rw [hpc]; nofun) rfl id)
  · cases h
    exact moves_onChannel hs (.prepares (by rw [hpc]; rfl) (by rw [hpc]; nofun) rfl id)
  · cases h
    exact .assigns hpc
  · cases h
    split
    · exact .ends hs
    · exact .enters hpc (Bool.eq_false_iff.2 ‹_›)
  · split at h
    · cases h
      exact moves_goOn hs (.returns (.inl hpc))
    · rename_i hw
      rw [not_or, Bool.not_eq_true] at hw
      cases h
      exact moves_goOn hs (.blocks hpc hw.1)
  · split at h
    · cases h
      exact moves_goOn hs (.returns (.inr hpc))
    · cases h
  · cases h
    apply moves_goOn hs
    split
    · have hd : Moves s { s with pc := .drain } := .drains hpc (.inl rfl)
      rwa [← hpc] at hd
    · exact .drains hpc (.inr rfl)
  · cases h

/-- A step leaves the port and the exit flag, which are not the thread's to write. -/
theorem listenerStep_keeps (h : listenerStep s io = some t) : t.mPort = s.mPort ∧ t.isExit = s.isExit := by
  cases listenerStep_moves h <;> exact ⟨rfl, rfl⟩

/-- A thread that is not running never will be. -/
theorem listenerStep_running (h : listenerStep s io = some t) (ht : t.Running) : s.Running := by
  refine ⟨fun he => ?_, (listenerStep_keeps h).2 ▸ ht.2⟩
  unfold listenerStep at h
  rw [he] at h
  cases h

/-! ## Termination, as one call -/

/-- What leaves a program for want of a reference. -/
inductive Exception
  | nullPointer
  deriving DecidableEq, Repr

def terminateServer : EStateM Exception Server Unit := do
  if (← get).selector then
    modify fun s => { s with wakeup := true }
  modify fun s => { s with isExit := true }
  match (← get).server with
  | none => throw .nullPointer
  -- the channel counts as closed even where closing throws, which is only printed
  | some _ => modify fun s => { s with server := some .closed }

/-- The server after `terminateServer`, however it ends. -/
def Server.terminated (s : Server) : Server :=
  { s with wakeup := s.selector || s.wakeup, isExit := true, server := s.server.map fun _ => .closed }

theorem terminateServer_run (s : Server) :
    terminateServer s = if s.server.isSome then .ok () s.terminated else .error .nullPointer s.terminated := by
  obtain ⟨port, pc, server, selector, wakeup, isExit⟩ := s
  cases server <;> cases selector <;> rfl

theorem Server.not_running_terminated (s : Server) : ¬ s.terminated.Running := fun h => by cases h.2

end OwonVds.Control
