import OwonVds.Java.Pref
import OwonVds.Control.Listener

/-!
# Starting and stopping the SCPI server

The fields and the calls of `ServerControl`. A server that it no longer refers to is kept in `abandoned`, since its
thread goes on. Each call is described once by what it leaves: `startServerOn_run`, one lemma for each way
`destroyServer` and `getPort` end, and four for `setPort`.
-/

namespace OwonVds.Control

open OwonVds.Exec OwonVds.Java

structure ServerControl where
  socketServer : Option Server
  mPort : Int
  /-- The servers started and no longer referred to. -/
  abandoned : List Server
  deriving DecidableEq, Repr

/-- The ports the server is started on. -/
def usable (port : Int) : Bool := decide (port > 0) && decide (port < 65535)

/-- `new ServerControl(p)` -/
def load {P : Type} (store : PrefStore P) (p : P) : ServerControl := ⟨none, store.loadInt p "ScpiPort", []⟩

def persist {P : Type} (store : PrefStore P) (c : ServerControl) (p : P) : P := store.persistInt p "ScpiPort" c.mPort

/-- `socketServer = server` -/
def ServerControl.refer (c : ServerControl) (server : Option Server) : ServerControl :=
  { c with socketServer := server, abandoned := c.abandoned ++ c.socketServer.toList }

/-- A call on the server referred to. -/
def onServer {α : Type} (m : EStateM Exception Server α) : EStateM Exception ServerControl α := fun c =>
  match c.socketServer with
  | none => .error .nullPointer c
  | some s =>
    match m s with
    | .ok a t => .ok a { c with socketServer := some t }
    | .error e t => .error e { c with socketServer := some t }

def Server.getPort : EStateM Exception Server Int := do
  return (← get).mPort

/-- `startServer(int)` -/
def startServerOn (port : Int) : EStateM Exception ServerControl Unit := do
  if usable port then
    modify fun c => c.refer (some (.started port))

def startServer : EStateM Exception ServerControl Unit := do
  startServerOn (← get).mPort

def destroyServer : EStateM Exception ServerControl Unit := do
  if (← get).socketServer.isSome then
    onServer terminateServer

def setPort (port : Int) : EStateM Exception ServerControl Bool := do
  if port = (← onServer Server.getPort) then
    return false
  let b := usable port
  if b then
    destroyServer
    modify fun c => c.refer none
    modify fun c => { c with mPort := port }
    startServerOn port
  return b

def getPort : EStateM Exception ServerControl Int := onServer Server.getPort

/-! ## What the calls leave -/

variable {c : ServerControl} {s : Server} {port : Int}

theorem usable_iff : usable port = true ↔ 0 < port ∧ port < 65535 := by
  simp [usable]

theorem startServerOn_run (port : Int) (c : ServerControl) :
    startServerOn port c = .ok () (if usable port then c.refer (some (.started port)) else c) := by
  unfold startServerOn
  split <;> rfl

theorem destroyServer_none (h : c.socketServer = none) : destroyServer c = .ok () c := by
  unfold destroyServer
  rw [get_bind, h]
  rfl

theorem destroyServer_some (h : c.socketServer = some s) : destroyServer c =
    if s.server.isSome then .ok () { c with socketServer := some s.terminated }
    else .error .nullPointer { c with socketServer := some s.terminated } := by
  unfold destroyServer
  rw [get_bind, h]
  show onServer terminateServer c = _
  unfold onServer
  rw [h]
  dsimp only
  rw [terminateServer_run]
  cases s.server.isSome <;> rfl

theorem port_none (h : c.socketServer = none) : onServer Server.getPort c = .error .nullPointer c := by
  unfold onServer
  rw [h]

theorem port_some (h : c.socketServer = some s) : onServer Server.getPort c = .ok s.mPort c := by
  unfold onServer
  rw [h]
  show EStateM.Result.ok s.mPort { c with socketServer := some s } = _
  rw [← h]

theorem getPort_none (h : c.socketServer = none) : getPort c = .error .nullPointer c := port_none h

theorem getPort_some (h : c.socketServer = some s) : getPort c = .ok s.mPort c := port_some h

theorem setPort_none (h : c.socketServer = none) (port : Int) : setPort port c = .error .nullPointer c := by
  unfold setPort
  exact bind_of_error (port_none h)

/-- A port that is the server's, or that is not usable. -/
theorem setPort_refused (h : c.socketServer = some s) (hp : port = s.mPort ∨ usable port = false) :
    setPort port c = .ok false c := by
  unfold setPort
  rw [bind_of_ok (port_some h)]
  split
  · rfl
  · rcases hp with hp | hp
    · contradiction
    · rw [hp]
      rfl

/-- The old server is told to exit before the new port is used in any way. -/
theorem setPort_throws (h : c.socketServer = some s) (hne : port ≠ s.mPort) (hu : usable port = true)
    (hc : s.server = none) : setPort port c = .error .nullPointer { c with socketServer := some s.terminated } := by
  unfold setPort
  rw [bind_of_ok (port_some h), if_neg hne, hu]
  apply bind_of_error
  rw [destroyServer_some h, hc]
  rfl

theorem setPort_done (h : c.socketServer = some s) (hne : port ≠ s.mPort) (hu : usable port = true)
    (hc : s.server.isSome = true) : setPort port c =
      .ok true ⟨some (.started port), port, c.abandoned ++ [s.terminated]⟩ := by
  unfold setPort
  rw [bind_of_ok (port_some h), if_neg hne, hu]
  have hd : destroyServer c = .ok () { c with socketServer := some s.terminated } := by
    rw [destroyServer_some h, if_pos hc]
  dsimp only
  rw [if_pos rfl, bind_of_ok hd, modify_bind, modify_bind, bind_of_ok (startServerOn_run port _), if_pos hu]
  simp [ServerControl.refer]

end OwonVds.Control
