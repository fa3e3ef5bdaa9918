import OwonVds.Lib.Exec
import OwonVds.Socket.Command

/-!
# Writing to a client

A non-blocking `SocketChannel.write` takes some of the bytes it is offered, possibly none, or throws. What the writes
of one write step do is a schedule (`SocketChannel.schedule`); a program that wants to write more than the schedule
says is still writing (`Halt.blocked`).

`writeLargeData` and `remoteDmTransmit` send a frame: `#`, the length in four bytes, a line feed, the payload. Both
payload loops put exactly the payload on the channel, however the writes cut it (`payloadLoop_ok`, `remainLoop_ok`).

What the platform does for a deep-memory transfer is a parameter (`Platform`).
-/

namespace OwonVds.Socket

open Java

inductive Exn
  | ioException | nullPointerException | stringIndexOutOfBoundsException | indexOutOfBoundsException
  | illegalArgumentException
  deriving DecidableEq, Repr

/-- Why a program does not end: an exception, or a write that has not been scheduled. -/
inductive Halt
  | thrown (e : Exn)
  | blocked
  deriving DecidableEq, Repr

abbrev Exec (σ α : Type) := EStateM Halt σ α

structure SocketChannel where
  /-- What the next writes do: `none` throws, `some k` takes at most `k` bytes. -/
  schedule : List (Option Nat)
  /-- The bytes taken so far. -/
  taken : Bytes
  deriving DecidableEq, Repr

/-- What a write step does, one entry for each call. -/
inductive Act
  | writeLargeData (cmd : JString)
  | writeDmData (remote : Bool) (cmd : Option JString)
  | text (line : JString)
  deriving DecidableEq, Repr

/-- The state of a write step: the client's channel, the instrument, and the calls made (a history variable). -/
structure Sending (δ : Type) where
  channel : SocketChannel
  dev : δ
  acts : List Act

/-- The instrument and the file system, as far as a deep-memory transfer uses them. -/
structure Platform (δ : Type) where
  isRuntime : δ → Bool
  statusStop : δ → δ
  isRTWhenLoad : δ → Bool
  isConnected : δ → Bool
  /-- `tryToPersistDMData`, until the operation is no longer blocked. -/
  persistDmData : δ → δ
  timestamp : δ → JString
  dmfExists : δ → Bool
  /-- `checkPath` and `copyFile2` to the file of that directory and name. -/
  copyToDest : JString → JString → δ → Bool × δ
  absolutePath : JString → JString → JString
  /-- Deleting the temporary file and `copyFile2` to it. -/
  copyToTemp : δ → Bool × δ
  tempExists : δ → Bool
  tempContent : δ → Bytes

/-- Everything outside the repository. -/
structure Env (κ δ : Type) where
  charset : Charset
  factory : CmdFactory κ δ
  platform : Platform δ

/-- An instrument on the bench: an empty command tree, fixed large data and deep memory. -/
def bench (online : Bool) (data : Option ByteArr) (file : Bytes) : Env Empty Unit where
  charset := latin1
  factory :=
    { getKeys := []
      getFitPre := Empty.elim
      getShortPre := Empty.elim
      hasKey := fun k => k.elim
      handle := fun k => k.elim
      getData := fun _ d => (data, d) }
  platform :=
    { isRuntime := fun _ => false
      statusStop := id
      isRTWhenLoad := fun _ => true
      isConnected := fun _ => online
      persistDmData := id
      timestamp := fun _ => lit "2020_0101_00.00.00"
      dmfExists := fun _ => true
      copyToDest := fun _ _ d => (true, d)
      absolutePath := fun path name => path ++ lit "/" ++ name
      copyToTemp := fun d => (true, d)
      tempExists := fun _ => true
      tempContent := fun _ => file }

variable {κ δ : Type}

/-! ## Primitives -/

def write (block : Bytes) : Exec (Sending δ) Nat := fun s =>
  match s.channel.schedule with
  | [] => .error .blocked s
  | none :: rest => .error (.thrown .ioException) { s with channel := ⟨rest, s.channel.taken⟩ }
  | some k :: rest => .ok (min k block.length) { s with channel := ⟨rest, s.channel.taken ++ block.take k⟩ }

def act (a : Act) : Exec (Sending δ) Unit := modify fun s => { s with acts := s.acts ++ [a] }

/-- An access to the instrument. -/
def device {α : Type} (f : δ → α × δ) : Exec (Sending δ) α := fun s => .ok (f s.dev).1 { s with dev := (f s.dev).2 }

theorem act_bind {α : Type} (a : Act) (k : Unit → Exec (Sending δ) α) (s : Sending δ) :
    (act a >>= k) s = k () { s with acts := s.acts ++ [a] } := rfl

theorem device_bind {α β : Type} (f : δ → α × δ) (k : α → Exec (Sending δ) β) (s : Sending δ) :
    (device f >>= k) s = k (f s.dev).1 { s with dev := (f s.dev).2 } := rfl

/-- `head.putInt(n)`, big-endian. -/
def putInt (n : Nat) : Bytes :=
  [UInt8.ofNat (n / 0x1000000), UInt8.ofNat (n / 0x10000), UInt8.ofNat (n / 0x100), UInt8.ofNat n]

/-- `ByteBuffer.wrap(buf, p, bl)`, if in range. -/
def wrap (buf : Bytes) (p bl : Nat) : Option Bytes :=
  if p + bl ≤ buf.length then some ((buf.drop p).take bl) else none

/-! ## Large data -/

/-- The payload loop of `writeLargeData`, for that many more writes. -/
def payloadLoop (buf : Bytes) : Nat → Nat → Nat → Exec (Sending δ) Unit
  | 0, _, _ => throw .blocked
  | n + 1, p, bl =>
    if p < buf.length then
      let bl := if bl > buf.length - p then buf.length - p else bl
      match wrap buf p bl with
      | none => throw (.thrown .indexOutOfBoundsException)
      | some block => do
        let wn ← write block
        payloadLoop buf n (p + wn) bl
    else pure ()

def writeLargeData (E : Env κ δ) (cmd : JString) : Exec (Sending δ) Unit := do
  act (.writeLargeData cmd)
  let data ← device (E.factory.getData cmd)
  let _ ← write (E.charset.encode (lit "#"))
  match data with
  | some buf => do
    let _ ← write (putInt buf.1.length)
    let _ ← write (E.charset.encode (lit "\n"))
    let s ← get
    -- an iteration is a write, so that the loop cannot make more iterations than the schedule has entries
    payloadLoop buf.1 (s.channel.schedule.length + 1) 0 2048
  | none => do
    let _ ← write (putInt 0)

/-! ## Deep memory -/

/-- `while (buf.hasRemaining()) channel.write(buf)`, for that many more writes. -/
def remainLoop : Nat → Bytes → Exec (Sending δ) Unit
  | 0, _ => throw .blocked
  | n + 1, buf =>
    if buf ≠ [] then do
      let wn ← write buf
      remainLoop n (buf.drop wn)
    else pure ()

def localDmTransmit (E : Env κ δ) (cmd : Option JString) : Exec (Sending δ) JString := do
  match cmd with
  | none => throw (.thrown .nullPointerException)
  | some cmd =>
    match substring (removeSemicolons cmd) (lit "*LDM?").length with
    | none => throw (.thrown .stringIndexOutOfBoundsException)
    | some rest => do
      let path := trim rest
      let fn := E.platform.timestamp (← get).dev
      let dest := fn ++ lit ".bin"
      if E.platform.dmfExists (← get).dev then
        let b ← device (E.platform.copyToDest path dest)
        let success := lit "SUCCESS: " ++ E.platform.absolutePath path dest ++ lit "\n"
        let failure := lit "FAILED: " ++ E.platform.absolutePath path dest ++ lit "\n"
        return if b then success else failure
      else return lit "FAILED: DEEPMEMORY DATA NULL\n"

/-- The frame of `remoteDmTransmit`. -/
def sendFrame (E : Env κ δ) (buf : Bytes) : Exec (Sending δ) JString := do
  let _ ← write (E.charset.encode (lit "#"))
  let _ ← write (putInt buf.length)
  let _ ← write (E.charset.encode (lit "\n"))
  let s ← get
  remainLoop (s.channel.schedule.length + 1) buf
  return []

def remoteDmTransmit (E : Env κ δ) : Exec (Sending δ) JString := do
  let b ← device E.platform.copyToTemp
  if b then
    let s ← get
    if E.platform.tempExists s.dev then
      let content := E.platform.tempContent s.dev
      -- the cast of the length to `int`
      let dataLen := (content.length : Int).bmod (0x100000000)
      if dataLen < 0 then throw (.thrown .illegalArgumentException)
      else
        tryCatch (sendFrame E (content.take dataLen.toNat)) fun
          | .thrown .ioException => return lit "TRANSMITSSION FAILED\n"
          | h => throw h
    else return lit "TRANSMITSSION FAILED\n"
  else return lit "TRANSMITSSION FAILED\n"

/-- The transfer, by `isRemoteTransmit`. -/
def dmResponse (E : Env κ δ) (remote : Bool) (cmd : Option JString) : Exec (Sending δ) JString :=
  if remote then remoteDmTransmit E else localDmTransmit E cmd

def writeDmData (E : Env κ δ) (remote : Bool) (cmd : Option JString) : Exec (Sending δ) Unit := do
  act (.writeDmData remote cmd)
  device fun d => ((), if E.platform.isRuntime d then E.platform.statusStop d else d)
  let s ← get
  if E.platform.isRTWhenLoad s.dev && E.platform.isConnected s.dev then
    device fun d => ((), E.platform.persistDmData d)
    let rsp ← dmResponse E remote cmd
    let _ ← write (E.charset.encode rsp)
  else
    let _ ← write (E.charset.encode (lit "TRANSMITSSION FAILED AS OFFLINE\n"))

/-! ## What the programs put on the channel -/

theorem write_ok {block : Bytes} {s t : Sending δ} {n : Nat} (h : write block s = .ok n t) :
    ∃ k, s.channel.schedule = some k :: t.channel.schedule ∧ n = min k block.length ∧
      t.channel.taken = s.channel.taken ++ block.take k ∧ t.dev = s.dev ∧ t.acts = s.acts := by
  unfold write at h
  split at h
  · cases h
  · cases h
  · rename_i k rest hs
    cases h
    exact ⟨k, hs, rfl, rfl, rfl, rfl⟩

theorem write_error {block : Bytes} {s t : Sending δ} {e : Exn} (h : write block s = .error (.thrown e) t) :
    e = .ioException ∧ s.channel.schedule = none :: t.channel.schedule := by
  unfold write at h
  split at h
  · cases h
  · rename_i rest hs
    cases h
    exact ⟨rfl, hs⟩
  · cases h

/-- A block the loop wraps is in range, so that its write is reached. -/
theorem wrap_clamped (buf : Bytes) (p bl : Nat) (hp : p < buf.length) :
    wrap buf p (if bl > buf.length - p then buf.length - p else bl) =
      some ((buf.drop p).take (if bl > buf.length - p then buf.length - p else bl)) := by
  unfold wrap
  rw [if_pos]
  split <;> omega

/-- **The payload loop puts the rest of the payload on the channel**, each byte once and in order. -/
theorem payloadLoop_ok (buf : Bytes) : ∀ (n p bl : Nat) {s t : Sending δ}, p ≤ buf.length →
    payloadLoop buf n p bl s = .ok () t →
      t.channel.taken = s.channel.taken ++ buf.drop p ∧ t.dev = s.dev ∧ t.acts = s.acts := by
  intro n
  induction n with
  | zero => intro p bl s t _ h; cases h
  | succ n ih =>
    intro p bl s t hp h
    unfold payloadLoop at h
    split at h
    · rename_i hlt
      dsimp only at h
      rw [wrap_clamped buf p bl hlt] at h
      obtain ⟨wn, u, hw, hl⟩ := Exec.ok_bind.1 h
      obtain ⟨k, -, rfl, htaken, hdev, hacts⟩ := write_ok hw
      generalize hb : (if bl > buf.length - p then buf.length - p else bl) = b at hl htaken
      have hble : b ≤ buf.length - p := by rw [← hb]; split <;> omega
      have hlen : ((buf.drop p).take b).length = b := by simp; omega
      rw [hlen] at hl
      obtain ⟨h1, h2, h3⟩ := ih (p + min k b) b (by omega) hl
      refine ⟨?_, h2.trans hdev, h3.trans hacts⟩
      rw [h1, htaken, List.append_assoc, List.take_take, ← List.drop_drop, List.take_append_drop]
    · rename_i hge
      cases h
      have : buf.drop p = [] := List.drop_eq_nil_of_le (by omega)
      simp [this]

/-- The loop of the remote transfer puts the buffer on the channel. -/
theorem remainLoop_ok : ∀ (n : Nat) (buf : Bytes) {s t : Sending δ}, remainLoop n buf s = .ok () t →
    t.channel.taken = s.channel.taken ++ buf ∧ t.dev = s.dev ∧ t.acts = s.acts := by
  intro n
  induction n with
  | zero => intro buf s t h; cases h
  | succ n ih =>
    intro buf s t h
    unfold remainLoop at h
    split at h
    · obtain ⟨wn, u, hw, hl⟩ := Exec.ok_bind.1 h
      obtain ⟨k, -, rfl, htaken, hdev, hacts⟩ := write_ok hw
      obtain ⟨h1, h2, h3⟩ := ih _ hl
      refine ⟨?_, h2.trans hdev, h3.trans hacts⟩
      have hk : buf.take k = buf.take (min k buf.length) := by
        rcases Nat.le_total k buf.length with hle | hle
        · rw [Nat.min_eq_left hle]
        · rw [Nat.min_eq_right hle, List.take_of_length_le hle, List.take_length]
      rw [h1, htaken, List.append_assoc, hk, List.take_append_drop]
    · rename_i hb
      have hb' : buf = [] := by simpa using hb
      cases h
      simp [hb']

/-- `#`, the length, a line feed, the payload. -/
def frame (buf : Bytes) : Bytes := 0x23 :: (putInt buf.length ++ 0x0A :: buf)

/-- The three writes of a frame's header take all their bytes. -/
def HeaderWhole (schedule : List (Option Nat)) : Prop :=
  ∃ k₁ k₂ k₃ rest, schedule = some k₁ :: some k₂ :: some k₃ :: rest ∧ 1 ≤ k₁ ∧ 4 ≤ k₂ ∧ 1 ≤ k₃

theorem encode_hash (cs : Charset) : cs.encode (lit "#") = [0x23] :=
  cs.encode_ascii _ (List.all_iff_forall_prop.1 (by decide))

theorem encode_lf (cs : Charset) : cs.encode (lit "\n") = [0x0A] :=
  cs.encode_ascii _ (List.all_iff_forall_prop.1 (by decide))

theorem length_putInt (n : Nat) : (putInt n).length = 4 := rfl

/-- A write that takes everything. -/
theorem write_whole {block : Bytes} {s t : Sending δ} {n k : Nat} {rest : List (Option Nat)}
    (h : write block s = .ok n t) (hs : s.channel.schedule = some k :: rest) (hk : block.length ≤ k) :
    t.channel.schedule = rest ∧ t.channel.taken = s.channel.taken ++ block ∧ t.dev = s.dev := by
  obtain ⟨k', hs', -, htaken, hdev, -⟩ := write_ok h
  rw [hs] at hs'
  cases hs'
  rw [List.take_of_length_le hk] at htaken
  exact ⟨rfl, htaken, hdev⟩

/-- **A large-data answer is a frame** of what the provider returns, however its payload writes are cut. -/
theorem writeLargeData_frame {E : Env κ δ} {cmd : JString} {s t : Sending δ} {buf : ByteArr}
    (h : writeLargeData E cmd s = .ok () t) (hd : (E.factory.getData cmd s.dev).1 = some buf)
    (hh : HeaderWhole s.channel.schedule) : t.channel.taken = s.channel.taken ++ frame buf.1 := by
  obtain ⟨k₁, k₂, k₃, rest, hs, hk₁, hk₂, hk₃⟩ := hh
  unfold writeLargeData at h
  rw [act_bind, device_bind] at h
  obtain ⟨n₁, u₃, hw₁, h⟩ := Exec.ok_bind.1 h
  simp only [hd] at h
  obtain ⟨n₂, u₄, hw₂, h⟩ := Exec.ok_bind.1 h
  obtain ⟨n₃, u₅, hw₃, h⟩ := Exec.ok_bind.1 h
  rw [Exec.get_bind] at h
  obtain ⟨hs₁, ht₁, -⟩ := write_whole hw₁ hs (by rw [encode_hash]; exact hk₁)
  obtain ⟨hs₂, ht₂, -⟩ := write_whole hw₂ hs₁ (by rw [length_putInt]; exact hk₂)
  obtain ⟨hs₃, ht₃, -⟩ := write_whole hw₃ hs₂ (by rw [encode_lf]; exact hk₃)
  obtain ⟨hl, -, -⟩ := payloadLoop_ok buf.1 _ 0 2048 (Nat.zero_le _) h
  rw [hl, ht₃, ht₂, ht₁, encode_hash, encode_lf]
  simp [frame]

/-- The frame of a remote transfer. -/
theorem sendFrame_frame {E : Env κ δ} {buf : Bytes} {r : JString} {s t : Sending δ}
    (h : sendFrame E buf s = .ok r t) (hh : HeaderWhole s.channel.schedule) :
    t.channel.taken = s.channel.taken ++ frame buf := by
  obtain ⟨k₁, k₂, k₃, rest, hs, hk₁, hk₂, hk₃⟩ := hh
  unfold sendFrame at h
  obtain ⟨n₁, u₁, hw₁, h⟩ := Exec.ok_bind.1 h
  obtain ⟨n₂, u₂, hw₂, h⟩ := Exec.ok_bind.1 h
  obtain ⟨n₃, u₃, hw₃, h⟩ := Exec.ok_bind.1 h
  rw [Exec.get_bind] at h
  obtain ⟨_, u₅, hl, h⟩ := Exec.ok_bind.1 h
  cases h
  obtain ⟨hs₁, ht₁, -⟩ := write_whole hw₁ hs (by rw [encode_hash]; exact hk₁)
  obtain ⟨hs₂, ht₂, -⟩ := write_whole hw₂ hs₁ (by rw [length_putInt]; exact hk₂)
  obtain ⟨hs₃, ht₃, -⟩ := write_whole hw₃ hs₂ (by rw [encode_lf]; exact hk₃)
  obtain ⟨hr, -, -⟩ := remainLoop_ok _ _ hl
  rw [hr, ht₃, ht₂, ht₁, encode_hash, encode_lf]
  simp [frame]

/-- **A remote transfer that reports no status is a frame** of the copied file. -/
theorem remoteDmTransmit_frame {E : Env κ δ} {s t : Sending δ} (h : remoteDmTransmit E s = .ok [] t)
    (hl : (E.platform.tempContent (E.platform.copyToTemp s.dev).2).length < 0x80000000)
    (hh : HeaderWhole s.channel.schedule) :
    t.channel.taken = s.channel.taken ++ frame (E.platform.tempContent (E.platform.copyToTemp s.dev).2) := by
  unfold remoteDmTransmit at h
  rw [device_bind] at h
  split at h
  · rw [Exec.get_bind] at h
    split at h
    · set content := E.platform.tempContent (E.platform.copyToTemp s.dev).2
      have hb : (content.length : Int).bmod (0x100000000) = content.length := by
        rw [Int.bmod_eq_of_le] <;> omega
      dsimp only at h
      rw [hb, if_neg (by omega), Int.toNat_natCast, List.take_length, Exec.tryCatch_run] at h
      split at h
      · rename_i r u hf
        cases h
        exact sendFrame_frame (s := ⟨s.channel, (E.platform.copyToTemp s.dev).2, s.acts⟩) hf hh
      · rename_i e u hf
        split at h
        · cases h
        · cases h
    · cases h
  · cases h

end OwonVds.Socket
