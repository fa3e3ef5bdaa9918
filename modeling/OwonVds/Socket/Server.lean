import Mathlib.Logic.Function.Basic
import OwonVds.Lib.Trans
import OwonVds.Socket.Transmit

/-!
# The server thread

One `Server` serves every client: a key for each connection (its interest and its attachment), one read buffer, and
one set of transmit flags. `process` handles one ready key; what the network does in that step (the accepted channel,
the bytes read, what each write takes, which operation throws) is part of the event.

`listen` processes events until it is told to stop. A key is ready for its interest only (`enabled`), and an
exception that leaves `process` ends the loop.

`history` is not in the source: it records what was read from each client and how each write step answered.
-/

namespace OwonVds.Socket

open Java

inductive Op
  | opRead | opWrite
  deriving DecidableEq, Repr

structure Key where
  interest : Op
  attachment : Option JString
  deriving DecidableEq, Repr

structure ByteBuffer where
  array : Bytes
  position : Nat
  limit : Nat
  deriving DecidableEq, Repr

def ByteBuffer.allocate (n : Nat) : ByteBuffer := ⟨List.replicate n 0, 0, n⟩

/-- What a channel read does to the buffer. -/
def ByteBuffer.put (b : ByteBuffer) (chunk : Bytes) : ByteBuffer :=
  { b with
    array := b.array.take b.position ++ chunk ++ b.array.drop (b.position + chunk.length)
    position := b.position + chunk.length }

def ByteBuffer.flip (b : ByteBuffer) : ByteBuffer := { b with limit := b.position, position := 0 }

def ByteBuffer.clear (b : ByteBuffer) : ByteBuffer := { b with position := 0, limit := b.array.length }

/-- The four ways a write step answers. -/
inductive Mode
  | large | remote | local | text
  deriving DecidableEq, Repr

inductive Obs
  /-- A chunk read from a client, and its translation. -/
  | chunk (c : Nat) (buf : Bytes) (reply : JString)
  /-- An attachment dispatched by a client's write step, the calls that answered it and the bytes taken. -/
  | answer (c : Nat) (cmd : JString) (mode : Mode) (acts : List Act) (sent : Bytes)
  deriving DecidableEq, Repr

structure Server (δ : Type) where
  flags : Flags
  isExit : Bool
  clientBuffer : ByteBuffer
  keys : Nat → Option Key
  dev : δ
  history : List Obs

def Server.fresh {δ : Type} (d : δ) : Server δ := ⟨Flags.clean, false, .allocate 1024, fun _ => none, d, []⟩

/-! ## Events -/

inductive AcceptResult
  | failed
  /-- No connection was there to accept. -/
  | nothing
  | client (c : Nat) (configureFails : Bool)
  deriving DecidableEq, Repr

inductive ReadResult
  | failed
  | eof
  | bytes (chunk : Bytes)
  deriving DecidableEq, Repr

/-- A ready key, with what the operations on its channel do. The schedule has one entry for each write. -/
inductive Ready
  | acceptable (r : AcceptResult)
  | readable (c : Nat) (r : ReadResult) (closeFails : Bool)
  | writable (c : Nat) (schedule : List (Option Nat))
  deriving DecidableEq, Repr

variable {κ δ : Type}

/-! ## Operations on a channel -/

/-- `client.register(selector, ops)`: the interest is set, the attachment is cleared. -/
def register (c : Nat) (ops : Op) : Exec (Server δ) Unit :=
  modify fun s => { s with keys := Function.update s.keys c (some ⟨ops, none⟩) }

def attach (c : Nat) (reply : JString) : Exec (Server δ) Unit :=
  modify fun s => { s with
    keys := Function.update s.keys c ((s.keys c).map fun k => { k with attachment := some reply }) }

/-- `client.close()`: an open channel leaves the selector; a closed one stays as it is. -/
def close (c : Nat) (fails : Bool) : Exec (Server δ) Unit := do
  let s ← get
  if (s.keys c).isSome then
    set { s with keys := Function.update s.keys c none }
    if fails then throw (.thrown .ioException) else pure ()
  else pure ()

def clientRead (r : ReadResult) : Exec (Server δ) Int :=
  match r with
  | .failed => throw (.thrown .ioException)
  | .eof => pure (-1)
  | .bytes chunk => do
    modify fun s => { s with clientBuffer := s.clientBuffer.put chunk }
    return chunk.length

/-- The writes of a step: the schedule says what each of them does, no more and no less. -/
def sending (schedule : List (Option Nat)) (m : Exec (Sending δ) Unit) : Exec (Server δ) (List Act × Bytes) := fun s =>
  match m ⟨⟨schedule, []⟩, s.dev, []⟩ with
  | .ok _ t =>
    if t.channel.schedule = [] then .ok (t.acts, t.channel.taken) { s with dev := t.dev } else .error .blocked s
  | .error h t => if t.channel.schedule = [] then .error h { s with dev := t.dev } else .error .blocked s

def note (o : Obs) : Exec (Server δ) Unit := modify fun s => { s with history := s.history ++ [o] }

/-! ## The branches of `process` -/

def accept (r : AcceptResult) : Exec (Server δ) Unit :=
  match r with
  | .failed => throw (.thrown .ioException)
  | .nothing => throw (.thrown .nullPointerException)
  | .client c configureFails =>
    if configureFails then throw (.thrown .ioException) else register c .opRead

/-- The command of the first `count` bytes of the buffer. -/
def commandOf (cs : Charset) (buf : Bytes) (count : Nat) : JString := trim (cs.decode (buf.take count)) ++ lit "\r"

variable (E : Env κ δ)

def translate (cmd : JString) : Exec (Server δ) JString := fun s =>
  let (reply, f, d) := translation E.factory cmd s.flags s.dev
  .ok reply { s with flags := f, dev := d }

/-- An empty translation leaves the key as it is. -/
def pend (c : Nat) (reply : JString) : Exec (Server δ) Unit :=
  if reply ≠ [] then do
    register c .opWrite
    attach c reply
  else pure ()

def onChunk (c : Nat) (count : Nat) : Exec (Server δ) Unit := do
  modify fun s => { s with clientBuffer := s.clientBuffer.flip }
  let buf := (← get).clientBuffer.array
  let reply ← translate E (commandOf E.charset buf count)
  pend c reply
  note (.chunk c (buf.take count) reply)

def onCount (c : Nat) (count : Int) (closeFails : Bool) : Exec (Server δ) Unit :=
  if count > 0 then onChunk E c count.toNat else close c closeFails

def readStep (c : Nat) (r : ReadResult) (closeFails : Bool) : Exec (Server δ) Unit := do
  let count ← tryCatch (clientRead r) fun _ => do
    close c closeFails
    return -1
  onCount E c count closeFails
  modify fun s => { s with clientBuffer := s.clientBuffer.clear }

/-- `writeLargeData` for every piece. -/
def writeEach : List JString → Exec (Sending δ) Unit
  | [] => pure ()
  | p :: ps => do
    writeLargeData E p
    writeEach ps

/-- The answer to an attachment, by the flags of the server. -/
def dispatch (cmd : Option JString) (schedule : List (Option Nat)) : Exec (Server δ) (Mode × List Act × Bytes) := do
  let f := (← get).flags
  if f.onlargeTransmit then
    match cmd with
    | none => throw (.thrown .nullPointerException)
    | some cmd => do
      let out ← sending schedule (writeEach E (split semicolon (trim cmd)))
      modify fun s => { s with flags := { s.flags with onlargeTransmit := false } }
      return (.large, out)
  else if f.onDmTransmit then
    let out ← sending schedule (writeDmData E f.isRemoteTransmit cmd)
    modify fun s => { s with flags := { s.flags with onDmTransmit := false, isRemoteTransmit := false } }
    return (if f.isRemoteTransmit then .remote else .local, out)
  else
    let line := cmd.getD (lit "null") ++ lit "\n"
    let out ← sending schedule do
      act (.text line)
      let _ ← write (E.charset.encode line)
    return (.text, out)

def writeStep (c : Nat) (schedule : List (Option Nat)) : Exec (Server δ) Unit := do
  let cmd := ((← get).keys c).bind Key.attachment
  let (mode, acts, sent) ← dispatch E cmd schedule
  register c .opRead
  note (.answer c (cmd.getD []) mode acts sent)

def process : Ready → Exec (Server δ) Unit
  | .acceptable r => accept r
  | .readable c r closeFails => readStep E c r closeFails
  | .writable c schedule => writeStep E c schedule

/-! ## The listen loop -/

/-- What the selector may report: a key is ready for its interest; a read fills at most what remains of the buffer;
an accepted channel is a new one. -/
def enabled (s : Server δ) : Ready → Bool
  | .acceptable (.client c _) => (s.keys c).isNone
  | .acceptable _ => true
  | .readable c (.bytes chunk) _ =>
    (s.keys c).map Key.interest == some .opRead && chunk.length ≤ s.clientBuffer.limit - s.clientBuffer.position
  | .readable c _ _ => (s.keys c).map Key.interest == some .opRead
  | .writable c _ => (s.keys c).map Key.interest == some .opWrite

inductive Status
  | running
  /-- The loop has seen `isExit`. -/
  | left
  /-- An exception has left `process`. -/
  | died (e : Exn)
  deriving DecidableEq, Repr

structure Listen (δ : Type) where
  server : Server δ
  status : Status

inductive Event
  | terminateServer
  | loopTest
  | ready (r : Ready)
  deriving DecidableEq, Repr

def Listen.fresh (d : δ) : Listen δ := ⟨.fresh d, .running⟩

/-- A step of the loop. -/
def listenStep (l : Listen δ) (e : Event) : Option (Listen δ) :=
  if l.status = .running then
    match e with
    | .terminateServer => some { l with server := { l.server with isExit := true } }
    | .loopTest => some (if l.server.isExit then { l with status := .left } else l)
    | .ready r =>
      if enabled l.server r then
        match process E r l.server with
        | .ok _ s => some ⟨s, .running⟩
        | .error (.thrown e) s => some ⟨s, .died e⟩
        | .error .blocked _ => none
      else none
  else none

end OwonVds.Socket
