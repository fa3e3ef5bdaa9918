import OwonVds.Lib.Exec
import OwonVds.Lib.Trans
import OwonVds.Scpi.Connection

/-!
# Several links in one process

A `SCPILink` has a connection of its own, and `disconnect` closes that connection only. But all of them run on one event
loop: `aioLoop` is an attribute of the class, and `asyncio.get_event_loop()`, which the constructor of `TCPConnection`
asks, returns the same loop. `quit` closes it, once the connection is down; nothing runs on a closed loop.

What a process did is a history of operations, each with whether it succeeded. The links are independent if an operation
on a link that was not quit succeeds whenever its own server plays its part (`Independent`). In a run that is so exactly
if no such operation comes after a `quit` that came to its end (`independent_iff`).
-/

namespace OwonVds.Scpi.Links

open OwonVds.Exec OwonVds.Trans

inductive Exn
  /-- `RuntimeError`, of an event loop that is closed. -/
  | loopClosed
  | connection
  | timeout
  | read (e : PyError)
  deriving DecidableEq

structure TCPConnection where
  /-- The writer was closed. -/
  closed : Bool
  deriving DecidableEq, Repr

structure Process where
  /-- The loop of `SCPILink.aioLoop` and of `asyncio.get_event_loop()` is closed. -/
  loopClosed : Bool
  /-- The connections of the links, in the order of their creation. -/
  links : List TCPConnection
  deriving DecidableEq, Repr

def Process.new : Process := ⟨false, []⟩

/-- An operation, with the part that the server of the link plays in it. -/
inductive Event
  /-- `SCPILink(ip, port)`. -/
  | create (accepts : Bool)
  /-- A command; what `TCPConnection.read` makes of the reply, if one comes within the time limit. -/
  | call (i : Nat) (answer : Option (Except PyError Value))
  /-- `quit`, and whether the connection closes without an error. -/
  | quit (i : Nat) (closes : Bool)

abbrev Exec (α : Type) := EStateM Exn Process α

/-- `run_until_complete`, on the one loop. -/
def runUntilComplete {α : Type} (coroutine : Exec α) : Exec α := do
  let s ← get
  if s.loopClosed then throw .loopClosed else coroutine

def connect (accepts : Bool) : Exec TCPConnection := if accepts then pure ⟨false⟩ else throw .connection

/-- `SCPILink.__init__`, which is `TCPConnection.__init__`. -/
def create (accepts : Bool) : Exec Unit := do
  let connection ← runUntilComplete (connect accepts)
  modify fun s => { s with links := s.links ++ [connection] }

/-- `__docall`, on the connection of the link. -/
def docall (i : Nat) (answer : Option (Except PyError Value)) : Exec Value := do
  let s ← get
  if s.links[i]? = some ⟨true⟩ then throw .connection
  else match answer with
    | none => throw .timeout
    | some (.error e) => throw (.read e)
    | some (.ok v) => pure v

def call (i : Nat) (answer : Option (Except PyError Value)) : Exec Value := runUntilComplete (docall i answer)

def disconnect (i : Nat) (closes : Bool) : Exec Unit := do
  modify fun s => { s with links := s.links.set i ⟨true⟩ }
  if closes then pure () else throw .connection

def quit (i : Nat) (closes : Bool) : Exec Unit := do
  runUntilComplete (disconnect i closes)
  modify fun s => { s with loopClosed := true }

def perform : Event → Exec Unit
  | .create accepts => create accepts
  | .call i answer => do
    let _ ← call i answer
    pure ()
  | .quit i closes => quit i closes

/-! ## Runs -/

structure Entry where
  event : Event
  succeeded : Bool

/-- The process, and the operations on its links so far. -/
structure Session where
  process : Process
  history : List Entry

def Session.new : Session := ⟨.new, []⟩

/-- The link that the operation is on. -/
def Event.link? : Event → Option Nat
  | .create _ => none
  | .call i _ => some i
  | .quit i _ => some i

/-- The operation returned. -/
def returns (r : EStateM.Result Exn Process Unit) : Bool :=
  match r with
  | .ok _ _ => true
  | .error _ _ => false

/-- An operation is on a link that was created. -/
def step (s : Session) (e : Event) : Option Session :=
  if e.link?.all (· < s.process.links.length) then
    some ⟨final (perform e s.process), s.history ++ [⟨e, returns (perform e s.process)⟩]⟩
  else none

/-! ## What the links are to do -/

/-- The server of the link plays its part. -/
def Event.served : Event → Bool
  | .create accepts => accepts
  | .call _ (some (.ok _)) => true
  | .call _ _ => false
  | .quit _ closes => closes

/-- A `quit` on the link. -/
def Event.quits (i : Nat) : Event → Bool
  | .quit j _ => i == j
  | _ => false

/-- A `quit` that gets the connection down, and closes the loop. -/
def Event.closesLoop : Event → Bool
  | .quit _ closes => closes
  | _ => false

/-- The operation is to succeed: its server plays its part, and its link was not quit. -/
def Demanded (pre : List Entry) (e : Event) : Prop :=
  e.served = true ∧ ∀ i, e.link? = some i → ∀ q ∈ pre, q.event.quits i = false

/-- The operation is not affected by what happened to other links. -/
def Independent (pre : List Entry) (o : Entry) : Prop := Demanded pre o.event → o.succeeded = true

/-- No link was quit, with its connection down, before an operation that is to succeed. -/
def Undisturbed (pre : List Entry) (o : Entry) : Prop := Demanded pre o.event → ∀ q ∈ pre, q.event.closesLoop = false

/-! ## One operation -/

variable {p : Process} {s s' : Session} {e : Event}

theorem runUntilComplete_open {α : Type} (coroutine : Exec α) (h : p.loopClosed = false) :
    runUntilComplete coroutine p = coroutine p := by
  unfold runUntilComplete
  rw [get_bind, h]
  rfl

theorem runUntilComplete_closed {α : Type} (coroutine : Exec α) (h : p.loopClosed = true) :
    runUntilComplete coroutine p = .error .loopClosed p := by
  unfold runUntilComplete
  rw [get_bind, h]
  rfl

/-- On a closed loop every operation throws, and changes nothing. -/
theorem perform_closed (e : Event) (h : p.loopClosed = true) : perform e p = .error .loopClosed p := by
  cases e with
  | create accepts => exact bind_of_error (runUntilComplete_closed _ h)
  | call i answer => exact bind_of_error (runUntilComplete_closed _ h)
  | quit i closes => exact bind_of_error (runUntilComplete_closed _ h)

theorem create_open (accepts : Bool) (h : p.loopClosed = false) :
    create accepts p =
      if accepts then .ok () { p with links := p.links ++ [⟨false⟩] } else .error .connection p := by
  have hrun := runUntilComplete_open (connect accepts) h
  unfold create
  cases accepts with
  | true => exact bind_of_ok hrun
  | false => exact bind_of_error hrun

theorem quit_open (i : Nat) (closes : Bool) (h : p.loopClosed = false) :
    quit i closes p =
      if closes then .ok () ⟨true, p.links.set i ⟨true⟩⟩
      else .error .connection { p with links := p.links.set i ⟨true⟩ } := by
  have hrun := runUntilComplete_open (disconnect i closes) h
  unfold quit
  cases closes with
  | true => exact bind_of_ok hrun
  | false => exact bind_of_error hrun

theorem docall_keeps (i : Nat) (answer : Option (Except PyError Value)) : Keeps id (docall i answer) := by
  unfold docall
  refine keeps_bind keeps_get fun s => keeps_ite (keeps_throw _) ?_
  split
  · exact keeps_throw _
  · exact keeps_throw _
  · exact keeps_pure _

theorem call_keeps (i : Nat) (answer : Option (Except PyError Value)) : Keeps id (perform (.call i answer)) := by
  refine keeps_bind ?_ fun v => keeps_pure ()
  unfold call runUntilComplete
  exact keeps_bind keeps_get fun s => keeps_ite (keeps_throw _) (docall_keeps i answer)

/-- On an open loop a `quit` that gets its connection down closes it, and closes no other connection. -/
theorem perform_open (e : Event) (h : p.loopClosed = false) :
    (final (perform e p)).loopClosed = e.closesLoop ∧
      ∀ i, (final (perform e p)).links[i]? = some ⟨true⟩ → p.links[i]? = some ⟨true⟩ ∨ e.quits i = true := by
  cases e with
  | create accepts =>
    have hrun : perform (.create accepts) p = _ := create_open accepts h
    rw [hrun]
    cases accepts with
    | false => exact ⟨h, fun i hi => .inl hi⟩
    | true =>
      refine ⟨h, fun i hi => .inl ?_⟩
      have hi' : (p.links ++ [⟨false⟩])[i]? = some ⟨true⟩ := hi
      rw [List.getElem?_append] at hi'
      split at hi'
      · exact hi'
      · simp [List.getElem?_singleton] at hi'
  | call i answer =>
    have hkeep : final (perform (.call i answer) p) = p := call_keeps i answer p
    rw [hkeep]
    exact ⟨h, fun i hi => .inl hi⟩
  | quit i closes =>
    have hrun : perform (.quit i closes) p = _ := quit_open i closes h
    have hset (j : Nat) (hj : (p.links.set i ⟨true⟩)[j]? = some ⟨true⟩) :
        p.links[j]? = some ⟨true⟩ ∨ Event.quits j (.quit i closes) = true := by
      by_cases hij : i = j
      · exact .inr (by simp [Event.quits, hij])
      · rw [List.getElem?_set_ne hij] at hj
        exact .inl hj
    rw [hrun]
    cases closes with
    | true => exact ⟨rfl, hset⟩
    | false => exact ⟨h, hset⟩

/-- On an open loop an operation succeeds if its server plays its part and its connection was not closed. -/
theorem perform_served (h : p.loopClosed = false) (hs : e.served = true)
    (hl : ∀ i, e.link? = some i → p.links[i]? ≠ some ⟨true⟩) : returns (perform e p) = true := by
  cases e with
  | create accepts =>
    have hrun : perform (.create accepts) p = _ := create_open accepts h
    rw [hrun, if_pos (show accepts = true from hs)]
    rfl
  | call i answer =>
    have hrun := runUntilComplete_open (docall i answer) h
    match answer, hs with
    | some (.ok v), _ =>
      have hdoc : docall i (some (.ok v)) p = .ok v p := by
        unfold docall
        rw [get_bind, if_neg (hl i rfl)]
        rfl
      have hcall : perform (.call i (some (.ok v))) p = .ok () p := bind_of_ok (hrun.trans hdoc)
      rw [hcall]
      rfl
  | quit i closes =>
    have hrun : perform (.quit i closes) p = _ := quit_open i closes h
    rw [hrun, if_pos (show closes = true from hs)]
    rfl

/-! ## The history of a run -/

/-- The entry succeeded if it was to, unless the loop was closed, and not after it was closed. -/
structure Outcome (pre : List Entry) (o : Entry) : Prop where
  succeeds : Demanded pre o.event → (∀ q ∈ pre, q.event.closesLoop = false) → o.succeeded = true
  fails : ∀ q ∈ pre, q.event.closesLoop = true → o.succeeded = false

structure Inv (s : Session) : Prop where
  loopClosed : s.process.loopClosed = true ↔ ∃ q ∈ s.history, q.event.closesLoop = true
  links : ∀ i, s.process.links[i]? = some ⟨true⟩ → ∃ q ∈ s.history, q.event.quits i = true
  history : EachAfter Outcome s.history

theorem step_eq_some : step s e = some s' ↔
    e.link?.all (· < s.process.links.length) = true ∧
      s' = ⟨final (perform e s.process), s.history ++ [⟨e, returns (perform e s.process)⟩]⟩ := by
  unfold step
  split
  · rename_i h
    simp [h, eq_comm]
  · rename_i h
    simp [h]

/-- What an operation has done is still in the history after the next one. -/
theorem exists_concat {P : Entry → Prop} {h : List Entry} {o : Entry} :
    (∃ q ∈ h ++ [o], P q) ↔ (∃ q ∈ h, P q) ∨ P o := by
  simp only [List.mem_append, List.mem_singleton, or_and_right, exists_or, exists_eq_left]

/-- An operation on a closed loop. -/
theorem inv_closed (hs : Inv s) (hc : s.process.loopClosed = true) (e : Event) :
    Inv ⟨final (perform e s.process), s.history ++ [⟨e, returns (perform e s.process)⟩]⟩ := by
  obtain ⟨q, hq, hqc⟩ := hs.loopClosed.1 hc
  rw [perform_closed e hc]
  constructor
  · exact iff_of_true hc (exists_concat.2 (.inl ⟨q, hq, hqc⟩))
  · exact fun i hi => exists_concat.2 (.inl (hs.links i hi))
  · refine eachAfter_concat.2 ⟨hs.history, ?_, fun _ _ _ => rfl⟩
    intro _ hno
    rw [hno q hq] at hqc
    cases hqc

/-- An operation on an open loop: no link was quit to the end before. -/
theorem inv_open (hs : Inv s) (hc : s.process.loopClosed = false) (e : Event) :
    Inv ⟨final (perform e s.process), s.history ++ [⟨e, returns (perform e s.process)⟩]⟩ := by
  obtain ⟨hloop, hlinks⟩ := perform_open e hc
  have hopen : ¬ ∃ q ∈ s.history, q.event.closesLoop = true := by
    rw [← hs.loopClosed, hc]
    simp
  constructor
  · dsimp only
    rw [hloop, exists_concat]
    simp [hopen]
  · intro i hi
    rw [exists_concat]
    exact (hlinks i hi).imp_left (hs.links i)
  · refine eachAfter_concat.2 ⟨hs.history, ?_, fun q hq hqc => absurd ⟨q, hq, hqc⟩ hopen⟩
    rintro ⟨hserved, hquit⟩ -
    refine perform_served hc hserved fun i hi hclosed => ?_
    obtain ⟨q, hq, hqi⟩ := hs.links i hclosed
    rw [hquit i hi q hq] at hqi
    cases hqi

theorem step_inv (s : Session) (e : Event) (s' : Session) (hs : Inv s) (h : step s e = some s') : Inv s' := by
  obtain ⟨-, rfl⟩ := step_eq_some.1 h
  cases hc : s.process.loopClosed with
  | true => exact inv_closed hs hc e
  | false => exact inv_open hs hc e

theorem new_inv : Inv .new := by
  refine ⟨by simp [Session.new, Process.new], ?_, eachAfter_nil _⟩
  intro i hi
  simp [Session.new, Process.new] at hi

theorem Outcome.undisturbed_iff {pre : List Entry} {o : Entry} (h : Outcome pre o) :
    Independent pre o ↔ Undisturbed pre o := by
  constructor
  · intro hind hd q hq
    rw [← Bool.not_eq_true]
    intro hqc
    have hfail := h.fails q hq hqc
    rw [hind hd] at hfail
    cases hfail
  · intro hund hd
    exact h.succeeds hd (hund hd)

/-- **When links are independent**: in a run every operation on a link that was not quit, and every creation, succeeds
with its own server, if and only if none of them comes after a `quit` that came to its end. -/
theorem independent_iff {es : List Event} {s : Session} (h : run step .new es = some s) :
    EachAfter Independent s.history ↔ EachAfter Undisturbed s.history := by
  have hinv : Inv s := run_inv step_inv h new_inv
  constructor
  · intro hind pre o post hs
    exact (hinv.history pre o post hs).undisturbed_iff.1 (hind pre o post hs)
  · intro hund pre o post hs
    exact (hinv.history pre o post hs).undisturbed_iff.2 (hund pre o post hs)

/-- Two links, of which the first is quit; then a call on the second, and a third link. -/
def twoLinks : List Event :=
  [.create true, .create true, .quit 0 true, .call 1 (some (.ok (.text ['R', 'U', 'N']))), .create true]

/-- The call and the creation fail, with servers that answer and accept. -/
theorem twoLinks_dependent : ∃ s, run step .new twoLinks = some s ∧ s.process.links = [⟨true⟩, ⟨false⟩] ∧
    s.history.map Entry.succeeded = [true, true, true, false, false] ∧ ¬ EachAfter Independent s.history := by
  refine ⟨_, rfl, rfl, rfl, fun h => ?_⟩
  have hcall := h [⟨.create true, true⟩, ⟨.create true, true⟩, ⟨.quit 0 true, true⟩] ⟨.call 1 _, false⟩ _ rfl
  have hdemanded : Demanded [⟨.create true, true⟩, ⟨.create true, true⟩, ⟨.quit 0 true, true⟩]
      (.call 1 (some (.ok (.text ['R', 'U', 'N'])))) := by
    refine ⟨rfl, fun i hi => ?_⟩
    cases hi
    simp [Event.quits]
  cases hcall hdemanded

/-- Two links and their calls; a `quit` whose connection does not close in order, and one more call and link before a
`quit` that comes to its end. -/
def quitLast : List Event :=
  [.create true, .create true, .call 0 (some (.ok (.text ['R', 'U', 'N']))), .quit 0 false,
    .call 1 (some (.ok (.text ['R', 'U', 'N']))), .create true, .quit 1 true]

theorem independent_iff_quitLast : ∃ s, run step .new quitLast = some s ∧
    s.history.map Entry.succeeded = [true, true, true, false, true, true, true] ∧ EachAfter Independent s.history := by
  obtain ⟨s, h⟩ : ∃ s, run step .new quitLast = some s := ⟨_, rfl⟩
  have hbefore : ∀ q ∈ s.history.dropLast, q.event.closesLoop = false := by
    cases h
    decide
  refine ⟨s, h, ?_, (independent_iff h).2 ?_⟩
  · cases h
    rfl
  · intro pre o post hs _ q hq
    refine hbefore q ?_
    rw [hs, List.dropLast_append_cons]
    exact List.mem_append_left _ hq

end OwonVds.Scpi.Links
