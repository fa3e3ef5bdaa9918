import OwonVds.Socket.Server

/-!
# What one step of the server does

Each branch of `process` once and for all: `readStep_eq` and `accept_eq` compute the outcome; `writeStep_ok` says of
a write step that ends which mode the flags chose (`Flags.mode`), which calls it made (`actsOf`) and which flags it
reset (`Flags.reset`). The invariants of the server are derived from these, never from the programs.
-/

namespace OwonVds.Socket

open Java

variable {κ δ : Type} {E : Env κ δ}

/-! ## The read buffer -/

/-- The buffer between two steps: empty, of 1024 bytes. -/
def ByteBuffer.Cleared (b : ByteBuffer) : Prop := b.position = 0 ∧ b.limit = 1024 ∧ b.array.length = 1024

theorem allocate_cleared : (ByteBuffer.allocate 1024).Cleared := ⟨rfl, rfl, List.length_replicate⟩

theorem ByteBuffer.Cleared.put {b : ByteBuffer} (hb : b.Cleared) {chunk : Bytes} (hc : chunk.length ≤ 1024) :
    (b.put chunk).flip.clear.Cleared := by
  obtain ⟨hp, -, hl⟩ := hb
  simp [ByteBuffer.Cleared, ByteBuffer.put, ByteBuffer.flip, ByteBuffer.clear, hp, hl]
  omega

theorem ByteBuffer.Cleared.clear {b : ByteBuffer} (hb : b.Cleared) : b.clear = b := by
  obtain ⟨hp, hl, ha⟩ := hb
  cases b
  simp_all [ByteBuffer.clear]

/-- The bytes read stand at the front of the buffer. -/
theorem take_put {b : ByteBuffer} (hb : b.position = 0) (chunk : Bytes) :
    (b.put chunk).flip.array.take chunk.length = chunk := by
  simp [ByteBuffer.put, ByteBuffer.flip, hb]

/-! ## Accepting -/

theorem accept_eq (r : AcceptResult) (s : Server δ) : accept r s = match r with
    | .client c false => .ok () { s with keys := Function.update s.keys c (some ⟨.opRead, none⟩) }
    | .nothing => .error (.thrown .nullPointerException) s
    | _ => .error (.thrown .ioException) s := by
  cases r with
  | failed => rfl
  | nothing => rfl
  | client c f => cases f <;> rfl

/-! ## Reading -/

/-- The translation of a chunk, with the flags and the instrument after it. -/
def chunkTranslation (E : Env κ δ) (s : Server δ) (chunk : Bytes) : JString × Flags × δ :=
  translation E.factory (trim (E.charset.decode chunk) ++ lit "\r") s.flags s.dev

/-- The server after a chunk of a client. -/
def Server.afterChunk (E : Env κ δ) (s : Server δ) (c : Nat) (chunk : Bytes) : Server δ :=
  let r := chunkTranslation E s chunk
  { s with
    flags := r.2.1
    dev := r.2.2
    clientBuffer := (s.clientBuffer.put chunk).flip.clear
    keys := if r.1 ≠ [] then Function.update s.keys c (some ⟨.opWrite, some r.1⟩) else s.keys
    history := s.history ++ [.chunk c chunk r.1] }

/-- The server after the connection of a client was closed. -/
def Server.afterClose (s : Server δ) (c : Nat) : Server δ :=
  { s with keys := Function.update s.keys c none }

theorem close_open {c : Nat} (fails : Bool) {s : Server δ} (h : (s.keys c).isSome = true) :
    close c fails s = if fails then .error (.thrown .ioException) (s.afterClose c) else .ok () (s.afterClose c) := by
  unfold close
  rw [Exec.get_bind]
  simp only [h, if_true]
  rw [Exec.set_bind]
  cases fails <;> rfl

theorem close_closed {c : Nat} {fails : Bool} {s : Server δ} (h : s.keys c = none) : close c fails s = .ok () s := by
  unfold close
  rw [Exec.get_bind]
  simp [h]

/-- Clearing a cleared buffer does nothing. -/
theorem clear_run {s : Server δ} (hb : s.clientBuffer.Cleared) :
    (modify fun s => { s with clientBuffer := s.clientBuffer.clear } : Exec (Server δ) PUnit) s = .ok ⟨⟩ s := by
  rw [Exec.modify_run, hb.clear]

/-- What follows the read when no bytes were read. -/
theorem onCount_close {c : Nat} {count : Int} {closeFails : Bool} {s : Server δ} (hc : ¬ count > 0)
    (hs : (s.keys c).isSome = true) (hb : s.clientBuffer.Cleared) :
    (do onCount E c count closeFails
        modify fun s => { s with clientBuffer := s.clientBuffer.clear } : Exec (Server δ) PUnit) s =
      if closeFails then .error (.thrown .ioException) (s.afterClose c) else .ok () (s.afterClose c) := by
  have h := close_open closeFails hs
  unfold onCount
  rw [if_neg hc]
  cases closeFails with
  | true => exact Exec.bind_of_error h
  | false =>
    rw [Exec.bind_of_ok h]
    exact clear_run (s := s.afterClose c) hb

/-- A reply that is not empty is attached to a key with interest in writing. -/
theorem pend_run (c : Nat) (reply : JString) (s : Server δ) : pend c reply s = .ok () { s with
    keys := if reply ≠ [] then Function.update s.keys c (some ⟨.opWrite, some reply⟩) else s.keys } := by
  unfold pend
  by_cases hr : reply ≠ []
  · rw [if_pos hr, if_pos hr]
    show EStateM.Result.ok _ _ = _
    simp [Function.update_idem]
  · rw [if_neg hr, if_neg hr]
    rfl

/-- The chunk branch, on a buffer that holds the chunk. -/
theorem onChunk_run {c : Nat} {chunk : Bytes} {s : Server δ} (hb : s.clientBuffer.position = 0) :
    onChunk E c chunk.length { s with clientBuffer := s.clientBuffer.put chunk } =
      .ok () { s.afterChunk E c chunk with clientBuffer := (s.clientBuffer.put chunk).flip } := by
  unfold onChunk
  rw [Exec.modify_bind, Exec.get_bind]
  dsimp only
  have htake := take_put hb chunk
  have ht : ∀ t : Server δ, t.flags = s.flags → t.dev = s.dev → translate E (commandOf E.charset
      (s.clientBuffer.put chunk).flip.array chunk.length) t = .ok (chunkTranslation E s chunk).1
        { t with flags := (chunkTranslation E s chunk).2.1, dev := (chunkTranslation E s chunk).2.2 } := by
    intro t hf hd
    unfold translate commandOf chunkTranslation
    rw [htake, hf, hd]
  rw [Exec.bind_of_ok (ht { s with clientBuffer := (s.clientBuffer.put chunk).flip } rfl rfl),
    Exec.bind_of_ok (pend_run _ _ _), htake]
  rfl

/-- **A read step**: bytes are translated, anything else closes the connection. -/
theorem readStep_eq {c : Nat} {r : ReadResult} {closeFails : Bool} {s : Server δ} (hs : (s.keys c).isSome = true)
    (hb : s.clientBuffer.Cleared) : readStep E c r closeFails s = match r with
      | .bytes (b :: bs) => .ok () (s.afterChunk E c (b :: bs))
      | _ => if closeFails then .error (.thrown .ioException) (s.afterClose c) else .ok () (s.afterClose c) := by
  unfold readStep
  cases r with
  | failed =>
    have hc := close_open closeFails hs
    have h : (tryCatch (clientRead .failed) fun _ => do close c closeFails; return -1 : Exec (Server δ) Int) s =
        if closeFails then .error (.thrown .ioException) (s.afterClose c) else .ok (-1) (s.afterClose c) := by
      rw [Exec.tryCatch_run]
      show (do close c closeFails; return -1 : Exec (Server δ) Int) s = _
      cases closeFails with
      | true => exact Exec.bind_of_error hc
      | false => exact Exec.bind_of_ok hc
    cases closeFails with
    | true => exact Exec.bind_of_error h
    | false =>
      -- the second close finds the channel closed
      rw [Exec.bind_of_ok h]
      have hn : (s.afterClose c).keys c = none := by simp [Server.afterClose]
      unfold onCount
      rw [if_neg (by decide), Exec.bind_of_ok (close_closed hn)]
      exact clear_run (s := s.afterClose c) hb
  | eof => exact onCount_close (by decide) hs hb
  | bytes chunk =>
    cases chunk with
    | nil =>
      have hput : s.clientBuffer.put [] = s.clientBuffer := by simp [ByteBuffer.put]
      have h : (tryCatch (clientRead (.bytes [])) fun _ => do close c closeFails; return -1 : Exec (Server δ) Int) s =
          .ok 0 s := by
        show EStateM.Result.ok (([] : Bytes).length : Int) { s with clientBuffer := s.clientBuffer.put [] } = _
        rw [hput]
        rfl
      rw [Exec.bind_of_ok h]
      exact onCount_close (by decide) hs hb
    | cons b bs =>
      have h : (tryCatch (clientRead (.bytes (b :: bs))) fun _ => do
          close c closeFails
          return -1 : Exec (Server δ) Int) s =
            .ok (b :: bs).length { s with clientBuffer := s.clientBuffer.put (b :: bs) } := rfl
      have hpos : ((b :: bs).length : Int) > 0 := by rw [List.length_cons]; omega
      rw [Exec.bind_of_ok h]
      unfold onCount
      rw [if_pos hpos, Int.toNat_natCast, Exec.bind_of_ok (onChunk_run hb.1)]
      rfl

/-! ## The calls of a write step -/

open Exec (Keeps)

theorem write_keeps (block : Bytes) : Keeps Sending.acts (write block : Exec (Sending δ) Nat) := by
  intro s
  unfold write
  split <;> rfl

theorem device_keeps {α : Type} (f : δ → α × δ) : Keeps Sending.acts (device f) := fun _ => rfl

theorem payloadLoop_keeps (buf : Bytes) : ∀ n p bl : Nat,
    Keeps Sending.acts (payloadLoop buf n p bl : Exec (Sending δ) Unit) := by
  intro n
  induction n with
  | zero => intro p bl; exact Exec.keeps_throw _
  | succ n ih =>
    intro p bl
    unfold payloadLoop
    apply Exec.keeps_ite
    · dsimp only
      split
      · exact Exec.keeps_throw _
      · exact Exec.keeps_bind (write_keeps _) fun wn => ih _ _
    · exact Exec.keeps_pure _

theorem remainLoop_keeps : ∀ (n : Nat) (buf : Bytes),
    Keeps Sending.acts (remainLoop n buf : Exec (Sending δ) Unit) := by
  intro n
  induction n with
  | zero => intro buf; exact Exec.keeps_throw _
  | succ n ih =>
    intro buf
    unfold remainLoop
    exact Exec.keeps_ite (Exec.keeps_bind (write_keeps _) fun wn => ih _) (Exec.keeps_pure _)

theorem localDmTransmit_keeps (cmd : Option JString) : Keeps Sending.acts (localDmTransmit E cmd) := by
  unfold localDmTransmit
  cases cmd with
  | none => exact Exec.keeps_throw _
  | some cmd =>
    dsimp only
    split
    · exact Exec.keeps_throw _
    · refine Exec.keeps_bind Exec.keeps_get fun s => Exec.keeps_bind Exec.keeps_get fun t => ?_
      apply Exec.keeps_ite
      · exact Exec.keeps_bind (device_keeps _) fun b => Exec.keeps_pure _
      · exact Exec.keeps_pure _

theorem remoteDmTransmit_keeps : Keeps Sending.acts (remoteDmTransmit E) := by
  unfold remoteDmTransmit
  refine Exec.keeps_bind (device_keeps _) fun b => Exec.keeps_ite ?_ (Exec.keeps_pure _)
  refine Exec.keeps_bind Exec.keeps_get fun s => Exec.keeps_ite ?_ (Exec.keeps_pure _)
  refine Exec.keeps_ite (Exec.keeps_throw _) (Exec.keeps_tryCatch ?_ fun h => ?_)
  · unfold sendFrame
    refine Exec.keeps_bind (write_keeps _) fun _ => Exec.keeps_bind (write_keeps _) fun _ =>
      Exec.keeps_bind (write_keeps _) fun _ => Exec.keeps_bind Exec.keeps_get fun _ =>
      Exec.keeps_bind (remainLoop_keeps _ _) fun _ => Exec.keeps_pure _
  · split
    · exact Exec.keeps_pure _
    · exact Exec.keeps_throw _

theorem act_ok {a : Act} {s t : Sending δ} (h : act a s = .ok () t) : t = { s with acts := s.acts ++ [a] } := by
  cases h
  rfl

/-- `writeLargeData` is one call. -/
theorem writeLargeData_acts {cmd : JString} {s t : Sending δ} (h : writeLargeData E cmd s = .ok () t) :
    t.acts = s.acts ++ [.writeLargeData cmd] := by
  unfold writeLargeData at h
  obtain ⟨_, u, ha, h⟩ := Exec.ok_bind.1 h
  rw [Keeps.ok (f := Sending.acts) ?_ h, act_ok ha]
  refine Exec.keeps_bind (device_keeps _) fun data => Exec.keeps_bind (write_keeps _) fun _ => ?_
  cases data with
  | none => exact Exec.keeps_bind (write_keeps _) fun _ => Exec.keeps_pure _
  | some buf => exact Exec.keeps_bind (write_keeps _) fun _ => Exec.keeps_bind (write_keeps _) fun _ =>
      Exec.keeps_bind Exec.keeps_get fun _ => payloadLoop_keeps _ _ _ _

theorem writeEach_acts : ∀ {ps : List JString} {s t : Sending δ}, writeEach E ps s = .ok () t →
    t.acts = s.acts ++ ps.map .writeLargeData
  | [], s, t, h => by cases h; simp
  | p :: ps, s, t, h => by
    unfold writeEach at h
    obtain ⟨_, u, h1, h2⟩ := Exec.ok_bind.1 h
    rw [writeEach_acts h2, writeLargeData_acts h1]
    simp

/-- `writeDmData` is one call. -/
theorem writeDmData_acts {remote : Bool} {cmd : Option JString} {s t : Sending δ}
    (h : writeDmData E remote cmd s = .ok () t) : t.acts = s.acts ++ [.writeDmData remote cmd] := by
  unfold writeDmData at h
  obtain ⟨_, u, ha, h⟩ := Exec.ok_bind.1 h
  rw [Keeps.ok (f := Sending.acts) ?_ h, act_ok ha]
  refine Exec.keeps_bind (device_keeps _) fun _ => Exec.keeps_bind Exec.keeps_get fun _ => Exec.keeps_ite ?_ ?_
  · refine Exec.keeps_bind (device_keeps _) fun _ => Exec.keeps_bind ?_ fun _ =>
      Exec.keeps_bind (write_keeps _) fun _ => Exec.keeps_pure _
    unfold dmResponse
    exact Exec.keeps_ite remoteDmTransmit_keeps (localDmTransmit_keeps cmd)
  · exact Exec.keeps_bind (write_keeps _) fun _ => Exec.keeps_pure _

/-! ## Answering -/

/-- The mode of the next answer. -/
def Flags.mode (f : Flags) : Mode :=
  if f.onlargeTransmit then .large
  else if f.onDmTransmit then if f.isRemoteTransmit then .remote else .local
  else .text

/-- The flags after the next answer. -/
def Flags.reset (f : Flags) : Flags :=
  if f.onlargeTransmit then { f with onlargeTransmit := false }
  else if f.onDmTransmit then { f with onDmTransmit := false, isRemoteTransmit := false }
  else f

/-- The calls of the next answer. -/
def actsOf (f : Flags) (cmd : Option JString) : List Act :=
  if f.onlargeTransmit then (split semicolon (trim (cmd.getD []))).map .writeLargeData
  else if f.onDmTransmit then [.writeDmData f.isRemoteTransmit cmd]
  else [.text (cmd.getD (lit "null") ++ lit "\n")]

theorem sending_ok {schedule : List (Option Nat)} {m : Exec (Sending δ) Unit} {s s' : Server δ} {out : List Act × Bytes}
    (h : sending schedule m s = .ok out s') : ∃ t, m ⟨⟨schedule, []⟩, s.dev, []⟩ = .ok () t ∧ t.channel.schedule = [] ∧
      out = (t.acts, t.channel.taken) ∧ s' = { s with dev := t.dev } := by
  unfold sending at h
  split at h
  · rename_i t hm
    split at h
    · rename_i hs
      cases h
      exact ⟨t, hm, hs, rfl, rfl⟩
    · cases h
  · split at h <;> cases h

theorem sending_thrown {schedule : List (Option Nat)} {m : Exec (Sending δ) Unit} {s s' : Server δ} {e : Exn}
    (h : sending schedule m s = .error (.thrown e) s') : ∃ t, m ⟨⟨schedule, []⟩, s.dev, []⟩ = .error (.thrown e) t ∧
      t.channel.schedule = [] ∧ s' = { s with dev := t.dev } := by
  unfold sending at h
  split at h
  · split at h <;> cases h
  · rename_i t hm
    split at h
    · rename_i hs
      cases h
      exact ⟨t, hm, hs, rfl⟩
    · cases h

/-- **An answer follows the flags** in its mode and its calls, and resets what it used. -/
theorem dispatch_ok {cmd : Option JString} {schedule : List (Option Nat)} {mode : Mode} {acts : List Act} {sent : Bytes}
    {s s' : Server δ} (h : dispatch E cmd schedule s = .ok (mode, acts, sent) s') :
    mode = s.flags.mode ∧ acts = actsOf s.flags cmd ∧ ∃ d, s' = { s with flags := s.flags.reset, dev := d } := by
  unfold dispatch at h
  rw [Exec.get_bind] at h
  unfold Flags.mode actsOf Flags.reset
  split at h
  · rename_i hl
    cases cmd with
    | none => cases h
    | some cmd =>
      obtain ⟨out, u, hs, h⟩ := Exec.ok_bind.1 h
      rw [Exec.modify_bind] at h
      cases h
      obtain ⟨t, ht, -, hout, rfl⟩ := sending_ok hs
      have ha := writeEach_acts ht
      simp only [Prod.mk.injEq] at hout
      rw [hout.1, ha]
      simp [hl]
  · rename_i hl
    split at h
    · rename_i hd
      obtain ⟨out, u, hs, h⟩ := Exec.ok_bind.1 h
      rw [Exec.modify_bind] at h
      cases h
      obtain ⟨t, ht, -, hout, rfl⟩ := sending_ok hs
      have ha := writeDmData_acts ht
      simp only [Prod.mk.injEq] at hout
      rw [hout.1, ha]
      simp [hl, hd]
    · rename_i hd
      obtain ⟨out, u, hs, h⟩ := Exec.ok_bind.1 h
      cases h
      obtain ⟨t, ht, -, hout, rfl⟩ := sending_ok hs
      obtain ⟨_, w, ha, ht⟩ := Exec.ok_bind.1 ht
      obtain ⟨_, w', hw, ht⟩ := Exec.ok_bind.1 ht
      cases ht
      have hk := (write_keeps _).ok hw
      simp only [Prod.mk.injEq] at hout
      rw [hout.1, hk, act_ok ha]
      simp [hl, hd]

/-- The server after the answer to an attachment `a` of a client. -/
def Server.afterAnswer (s : Server δ) (c : Nat) (a : Option JString) (d : δ) (sent : Bytes) : Server δ :=
  { s with
    flags := s.flags.reset
    dev := d
    keys := Function.update s.keys c (some ⟨.opRead, none⟩)
    history := s.history ++ [.answer c (a.getD []) s.flags.mode (actsOf s.flags a) sent] }

/-- **A write step** answers the client's attachment and makes the client readable again. -/
theorem writeStep_ok {c : Nat} {k : Key} {schedule : List (Option Nat)} {s s' : Server δ} (hk : s.keys c = some k)
    (h : writeStep E c schedule s = .ok () s') : ∃ d sent, s' = s.afterAnswer c k.attachment d sent := by
  unfold writeStep at h
  rw [Exec.get_bind] at h
  obtain ⟨⟨mode, acts, sent⟩, u, hd, h⟩ := Exec.ok_bind.1 h
  rw [hk] at hd h
  obtain ⟨rfl, rfl, d, rfl⟩ := dispatch_ok hd
  obtain ⟨_, v, hr, h⟩ := Exec.ok_bind.1 h
  cases hr
  cases h
  exact ⟨d, sent, rfl⟩

/-- A failed answer changes the instrument only. -/
theorem dispatch_thrown {cmd : Option JString} {schedule : List (Option Nat)} {s s' : Server δ} {e : Exn}
    (h : dispatch E cmd schedule s = .error (.thrown e) s') : ∃ d, s' = { s with dev := d } := by
  unfold dispatch at h
  rw [Exec.get_bind] at h
  split at h
  · cases cmd with
    | none =>
      cases h
      exact ⟨s.dev, rfl⟩
    | some cmd =>
      rcases Exec.error_bind.1 h with h | ⟨_, u, -, h⟩
      · obtain ⟨t, -, -, rfl⟩ := sending_thrown h
        exact ⟨t.dev, rfl⟩
      · cases h
  · split at h
    · rcases Exec.error_bind.1 h with h | ⟨_, u, -, h⟩
      · obtain ⟨t, -, -, rfl⟩ := sending_thrown h
        exact ⟨t.dev, rfl⟩
      · cases h
    · rcases Exec.error_bind.1 h with h | ⟨_, u, -, h⟩
      · obtain ⟨t, -, -, rfl⟩ := sending_thrown h
        exact ⟨t.dev, rfl⟩
      · cases h

/-- A failed write step changes the instrument only. -/
theorem writeStep_thrown {c : Nat} {schedule : List (Option Nat)} {s s' : Server δ} {e : Exn}
    (h : writeStep E c schedule s = .error (.thrown e) s') : ∃ d, s' = { s with dev := d } := by
  unfold writeStep at h
  rw [Exec.get_bind] at h
  rcases Exec.error_bind.1 h with h | ⟨⟨mode, acts, sent⟩, u, -, h⟩
  · exact dispatch_thrown h
  · cases h

/-! ## A step of the loop -/

/-- The server after a client was accepted. -/
def Server.afterAccept (s : Server δ) (c : Nat) : Server δ :=
  { s with keys := Function.update s.keys c (some ⟨.opRead, none⟩) }

/-- What `process` does to the server for a ready key when it ends. -/
inductive Moves (E : Env κ δ) (s : Server δ) : Ready → Server δ → Prop
  | accept {c : Nat} (hk : s.keys c = none) : Moves E s (.acceptable (.client c false)) (s.afterAccept c)
  | chunk {c : Nat} {chunk : Bytes} {a : Option JString} {f : Bool} (hk : s.keys c = some ⟨.opRead, a⟩)
      (hne : chunk ≠ []) (hl : chunk.length ≤ 1024) : Moves E s (.readable c (.bytes chunk) f) (s.afterChunk E c chunk)
  | close {c : Nat} {r : ReadResult} {a : Option JString} (hk : s.keys c = some ⟨.opRead, a⟩)
      (hr : ∀ chunk, r = .bytes chunk → chunk = []) : Moves E s (.readable c r false) (s.afterClose c)
  | answer {c : Nat} {schedule : List (Option Nat)} {a : Option JString} (hk : s.keys c = some ⟨.opWrite, a⟩)
      (d : δ) (sent : Bytes) (hw : writeStep E c schedule s = .ok () (s.afterAnswer c a d sent)) :
      Moves E s (.writable c schedule) (s.afterAnswer c a d sent)

/-- What `process` does to the server for a ready key when it throws. -/
inductive Fails (E : Env κ δ) (s : Server δ) : Ready → Exn → Server δ → Prop
  | accept {r : AcceptResult} {e : Exn} (hr : ∀ c, r ≠ .client c false) : Fails E s (.acceptable r) e s
  | close {c : Nat} {r : ReadResult} {a : Option JString} (hk : s.keys c = some ⟨.opRead, a⟩)
      (hr : ∀ chunk, r = .bytes chunk → chunk = []) : Fails E s (.readable c r true) .ioException (s.afterClose c)
  | write {c : Nat} {schedule : List (Option Nat)} {a : Option JString} {e : Exn} (hk : s.keys c = some ⟨.opWrite, a⟩)
      (d : δ) (hw : writeStep E c schedule s = .error (.thrown e) { s with dev := d }) :
      Fails E s (.writable c schedule) e { s with dev := d }

theorem key_of_enabled {k : Option Key} {op : Op} (h : (k.map Key.interest == some op) = true) :
    ∃ a, k = some ⟨op, a⟩ := by
  cases k with
  | none => cases h
  | some k =>
    obtain ⟨i, a⟩ := k
    have hi : i = op := by simpa using h
    exact ⟨a, by rw [hi]⟩

/-- What the selector reports of a key. -/
theorem enabled_readable {s : Server δ} {c : Nat} {r : ReadResult} {f : Bool} (hb : s.clientBuffer.Cleared)
    (h : enabled s (.readable c r f) = true) : (∃ a, s.keys c = some ⟨.opRead, a⟩) ∧
      ∀ chunk, r = .bytes chunk → chunk.length ≤ 1024 := by
  cases r with
  | failed => exact ⟨key_of_enabled h, by simp⟩
  | eof => exact ⟨key_of_enabled h, by simp⟩
  | bytes chunk =>
    unfold enabled at h
    rw [Bool.and_eq_true] at h
    refine ⟨key_of_enabled h.1, fun chunk' hc => ?_⟩
    cases hc
    have := of_decide_eq_true h.2
    rw [hb.1, hb.2.1] at this
    omega

/-- **`process`** moves, or throws, as `Moves` and `Fails` say. -/
theorem process_cases {r : Ready} {s : Server δ} (hb : s.clientBuffer.Cleared) (hen : enabled s r = true) :
    (∃ s', process E r s = .ok () s' ∧ Moves E s r s') ∨
      (∃ e s', process E r s = .error (.thrown e) s' ∧ Fails E s r e s') ∨
      ∃ s', process E r s = .error .blocked s' := by
  cases r with
  | acceptable r =>
    show (∃ s', accept r s = _ ∧ _) ∨ (∃ e s', accept r s = _ ∧ _) ∨ ∃ s', accept r s = _
    rw [accept_eq]
    cases r with
    | failed => exact .inr (.inl ⟨_, s, rfl, .accept (by simp)⟩)
    | nothing => exact .inr (.inl ⟨_, s, rfl, .accept (by simp)⟩)
    | client c f =>
      have hk : s.keys c = none := by simpa [enabled] using hen
      cases f with
      | false => exact .inl ⟨_, rfl, .accept hk⟩
      | true => exact .inr (.inl ⟨_, s, rfl, .accept (by simp)⟩)
  | readable c r f =>
    obtain ⟨⟨a, hk⟩, hl⟩ := enabled_readable hb hen
    have hs : (s.keys c).isSome = true := by rw [hk]; rfl
    have hstep := @readStep_eq _ _ E c r f s hs hb
    have closes : (∀ chunk, r = .bytes chunk → chunk = []) → readStep E c r f s =
        (if f then .error (.thrown .ioException) (s.afterClose c) else .ok () (s.afterClose c)) →
        (∃ s', readStep E c r f s = .ok () s' ∧ Moves E s (.readable c r f) s') ∨
        (∃ e s', readStep E c r f s = .error (.thrown e) s' ∧ Fails E s (.readable c r f) e s') ∨
        ∃ s', readStep E c r f s = .error .blocked s' := by
      intro hr h
      cases f with
      | false => exact .inl ⟨_, h, .close hk hr⟩
      | true => exact .inr (.inl ⟨_, _, h, .close hk hr⟩)
    cases r with
    | failed => exact closes (by simp) hstep
    | eof => exact closes (by simp) hstep
    | bytes chunk =>
      cases chunk with
      | nil => exact closes (by simp) hstep
      | cons b bs => exact .inl ⟨_, hstep, .chunk hk (by simp) (hl _ rfl)⟩
  | writable c schedule =>
    obtain ⟨a, hk⟩ := key_of_enabled hen
    show (∃ s', writeStep E c schedule s = _ ∧ _) ∨ (∃ e s', writeStep E c schedule s = _ ∧ _) ∨
      ∃ s', writeStep E c schedule s = _
    cases h : writeStep E c schedule s with
    | ok _ s' =>
      obtain ⟨d, sent, rfl⟩ := writeStep_ok hk h
      exact .inl ⟨_, rfl, .answer hk d sent h⟩
    | error e s' =>
      cases e with
      | thrown e =>
        obtain ⟨d, rfl⟩ := writeStep_thrown h
        exact .inr (.inl ⟨e, _, rfl, .write hk d h⟩)
      | blocked => exact .inr (.inr ⟨s', rfl⟩)

/-- **A step of the loop.** -/
theorem listenStep_cases {l l' : Listen δ} {e : Event} (hb : l.server.clientBuffer.Cleared)
    (h : listenStep E l e = some l') : l.status = .running ∧
      ((e = .terminateServer ∧ l' = { l with server := { l.server with isExit := true } }) ∨
        (e = .loopTest ∧ l' = if l.server.isExit then { l with status := .left } else l) ∨
        (∃ r, e = .ready r ∧ Moves E l.server r l'.server ∧ l'.status = .running) ∨
        ∃ r x, e = .ready r ∧ Fails E l.server r x l'.server ∧ l'.status = .died x) := by
  unfold listenStep at h
  split at h
  · rename_i hrun
    refine ⟨hrun, ?_⟩
    cases e with
    | terminateServer =>
      cases h
      exact .inl ⟨rfl, rfl⟩
    | loopTest =>
      cases h
      exact .inr (.inl ⟨rfl, rfl⟩)
    | ready r =>
      dsimp only at h
      split at h
      · rename_i hen
        obtain ⟨s', hp, hm⟩ | ⟨x, s', hp, hf⟩ | ⟨s', hp⟩ := process_cases (E := E) hb hen
        · rw [hp] at h
          cases h
          exact .inr (.inr (.inl ⟨r, rfl, hm, rfl⟩))
        · rw [hp] at h
          cases h
          exact .inr (.inr (.inr ⟨r, x, rfl, hf, rfl⟩))
        · rw [hp] at h
          cases h
      · cases h
  · cases h

/-! ## Well-formed servers -/

/-- Between two steps the buffer is cleared, a readable client has no reply pending and a writable one has. -/
structure Server.Wf (s : Server δ) : Prop where
  buffer : s.clientBuffer.Cleared
  keys : ∀ c k, s.keys c = some k → k = ⟨.opRead, none⟩ ∨ ∃ reply, reply ≠ [] ∧ k = ⟨.opWrite, some reply⟩

theorem fresh_wf (d : δ) : (Server.fresh d).Wf := ⟨allocate_cleared, fun _ _ h => by cases h⟩

/-- A change of one key by a well-formed one. -/
theorem Server.Wf.update {s : Server δ} (hs : s.Wf) (c : Nat) {k : Option Key}
    (hk : ∀ k', k = some k' → k' = ⟨.opRead, none⟩ ∨ ∃ reply, reply ≠ [] ∧ k' = ⟨.opWrite, some reply⟩) :
    ∀ c' k', Function.update s.keys c k c' = some k' →
      k' = ⟨.opRead, none⟩ ∨ ∃ reply, reply ≠ [] ∧ k' = ⟨.opWrite, some reply⟩ := by
  intro c' k' h
  by_cases hc : c' = c
  · subst hc
    rw [Function.update_self] at h
    exact hk k' h
  · rw [Function.update_of_ne hc] at h
    exact hs.keys c' k' h

theorem Moves.wf {s s' : Server δ} {r : Ready} (h : Moves E s r s') (hs : s.Wf) : s'.Wf := by
  cases h with
  | accept hk => exact ⟨hs.buffer, hs.update _ fun k h => by cases h; exact .inl rfl⟩
  | @chunk c chunk a f hk hne hl =>
    refine ⟨hs.buffer.put hl, fun c' k' h => ?_⟩
    dsimp only [Server.afterChunk] at h
    split at h
    · rename_i hr
      exact hs.update c (fun k h => by cases h; exact .inr ⟨_, hr, rfl⟩) c' k' h
    · exact hs.keys c' k' h
  | close hk hr => exact ⟨hs.buffer, hs.update _ fun k h => by cases h⟩
  | answer hk d sent hw => exact ⟨hs.buffer, hs.update _ fun k h => by cases h; exact .inl rfl⟩

theorem Fails.wf {s s' : Server δ} {r : Ready} {e : Exn} (h : Fails E s r e s') (hs : s.Wf) : s'.Wf := by
  cases h with
  | accept hr => exact hs
  | close hk hr => exact ⟨hs.buffer, hs.update _ fun k h => by cases h⟩
  | write hk d hw => exact ⟨hs.buffer, hs.keys⟩

theorem wf_step {l l' : Listen δ} {e : Event} (hl : l.server.Wf) (h : listenStep E l e = some l') : l'.server.Wf := by
  obtain ⟨-, ⟨-, rfl⟩ | ⟨-, rfl⟩ | ⟨r, -, hm, -⟩ | ⟨r, x, -, hf, -⟩⟩ := listenStep_cases hl.buffer h
  · exact ⟨hl.buffer, hl.keys⟩
  · split
    · exact hl
    · exact hl
  · exact hm.wf hl
  · exact hf.wf hl

/-- A key with interest in writing has a pending reply. -/
theorem Server.Wf.pending {s : Server δ} (hs : s.Wf) {c : Nat} {a : Option JString}
    (hk : s.keys c = some ⟨.opWrite, a⟩) : ∃ reply, reply ≠ [] ∧ a = some reply := by
  obtain h | ⟨reply, hr, h⟩ := hs.keys c _ hk
  · cases h
  · cases h
    exact ⟨reply, hr, rfl⟩

/-- A key with interest in reading has none. -/
theorem Server.Wf.idle {s : Server δ} (hs : s.Wf) {c : Nat} {a : Option JString} (hk : s.keys c = some ⟨.opRead, a⟩) :
    a = none := by
  obtain h | ⟨reply, -, h⟩ := hs.keys c _ hk
  · cases h
    rfl
  · cases h

end OwonVds.Socket
