import OwonVds.Lib.Parts
import OwonVds.Socket.Steps

/-!
# Short writes

A write on a non-blocking channel may take less than it is offered. Every answer of the server is a message in parts
(`responseParts`): the payloads are offered in loops, the headers of the frames and the text lines once. `Emits m d ps a
d'` says of a program that what it does on a channel whose writes do not throw is to send the parts `ps`; there is one
rule for each construct and one lemma for each program. So the client is answered in full if and only if every write
outside of the payload loops takes all its bytes (`writeStep_whole_iff`).
-/

namespace OwonVds.Socket

open Java Parts

variable {κ δ α β : Type} {E : Env κ δ}

/-! ## Programs that send parts -/

/-- On a channel whose writes are `ks`, none of which throws, `m` sends the parts and returns `a`, and the instrument
goes from `d` to `d'`; where the writes do not suffice for the parts, `m` is still writing. -/
structure EmitsOn (ks : List Nat) (m : Exec (Sending δ) α) (d : δ) (ps : List (MessagePart UInt8)) (a : α) (d' : δ) :
    Prop where
  ok : ∀ {w : Bytes} {rest : List Nat}, send ps ks = some (w, rest) → ∀ taken acts,
    ∃ acts', m ⟨⟨ks.map some, taken⟩, d, acts⟩ = .ok a ⟨⟨rest.map some, taken ++ w⟩, d', acts'⟩
  blocked : send ps ks = none → ∀ taken acts, ∃ u, m ⟨⟨ks.map some, taken⟩, d, acts⟩ = .error .blocked u

def Emits (m : Exec (Sending δ) α) (d : δ) (ps : List (MessagePart UInt8)) (a : α) (d' : δ) : Prop :=
  ∀ ks, EmitsOn ks m d ps a d'

variable {d d' d'' : δ} {ps qs : List (MessagePart UInt8)} {a : α} {b : β} {ks : List Nat}

theorem emitsOn_pure (ks : List Nat) (a : α) (d : δ) : EmitsOn ks (pure a) d [] a d where
  ok h taken acts := by
    cases h
    exact ⟨acts, by simp⟩
  blocked h := by cases h

theorem emits_pure (a : α) (d : δ) : Emits (pure a) d [] a d := fun ks => emitsOn_pure ks a d

theorem Emits.bind {m : Exec (Sending δ) α} {k : α → Exec (Sending δ) β} (hm : Emits m d ps a d')
    (hk : Emits (k a) d' qs b d'') : Emits (m >>= k) d (ps ++ qs) b d'' := by
  intro ks
  constructor
  · intro w rest h taken acts
    rw [send_append] at h
    obtain ⟨⟨w₁, ks'⟩, hs, h⟩ := Option.bind_eq_some_iff.1 h
    obtain ⟨⟨w₂, rest'⟩, hs', he⟩ := Option.map_eq_some_iff.1 h
    cases he
    obtain ⟨acts', hu⟩ := (hm ks).ok hs taken acts
    obtain ⟨acts'', hv⟩ := (hk ks').ok hs' (taken ++ w₁) acts'
    exact ⟨acts'', by rw [Exec.bind_of_ok hu, hv, List.append_assoc]⟩
  · intro h taken acts
    rw [send_append] at h
    cases hs : send ps ks with
    | none =>
      obtain ⟨u, hu⟩ := (hm ks).blocked hs taken acts
      exact ⟨u, Exec.bind_of_error hu⟩
    | some r =>
      rw [hs] at h
      obtain ⟨acts', hu⟩ := (hm ks).ok hs taken acts
      rw [Exec.bind_of_ok hu]
      exact (hk r.2).blocked (Option.map_eq_none_iff.1 h) _ _

/-- A write is taken from the schedule, if there is one. -/
theorem EmitsOn.write {block : Bytes} {j : Nat} {k : Nat → Exec (Sending δ) β}
    (hk : EmitsOn ks (k (min j block.length)) d ps b d') :
    EmitsOn (j :: ks) (write block >>= k) d (.once block :: ps) b d' := by
  have hw : ∀ taken acts, Socket.write block ⟨⟨(j :: ks).map some, taken⟩, d, acts⟩ =
      .ok (min j block.length) ⟨⟨ks.map some, taken ++ block.take j⟩, d, acts⟩ := fun _ _ => rfl
  constructor
  · intro w rest h taken acts
    obtain ⟨w₁, ks', w₂, hs, hs', rfl⟩ := send_cons_eq.1 h
    cases hs
    obtain ⟨acts', hu⟩ := hk.ok hs' (taken ++ block.take j) acts
    exact ⟨acts', by rw [Exec.bind_of_ok (hw taken acts), hu, List.append_assoc]⟩
  · intro h taken acts
    rw [Exec.bind_of_ok (hw taken acts)]
    exact hk.blocked (Option.map_eq_none_iff.1 h) _ _

/-- A write whose count nothing depends on. -/
theorem Emits.write {block : Bytes} {k : Nat → Exec (Sending δ) β} (hk : ∀ n, Emits (k n) d ps b d') :
    Emits (write block >>= k) d (.once block :: ps) b d' := by
  intro ks
  cases ks with
  | nil =>
    constructor
    · intro w rest h
      cases h
    · intro _ taken acts
      exact ⟨_, Exec.bind_of_error rfl⟩
  | cons j ks => exact EmitsOn.write (hk _ ks)

theorem Emits.act {x : Act} {k : Unit → Exec (Sending δ) β} (hk : Emits (k ()) d ps b d') :
    Emits (act x >>= k) d ps b d' :=
  fun ks => ⟨fun h taken acts => (hk ks).ok h taken (acts ++ [x]), fun h taken acts =>
    (hk ks).blocked h taken (acts ++ [x])⟩

theorem Emits.device {f : δ → α × δ} {k : α → Exec (Sending δ) β} (hk : Emits (k (f d).1) (f d).2 ps b d') :
    Emits (device f >>= k) d ps b d' :=
  fun ks => ⟨(hk ks).ok, (hk ks).blocked⟩

/-- An access to the state of which only the instrument is used. -/
theorem Emits.get {k : Sending δ → Exec (Sending δ) β} (hk : ∀ s, s.dev = d → Emits (k s) d ps b d') :
    Emits (get >>= k) d ps b d' :=
  fun ks => ⟨fun h taken acts => (hk ⟨⟨ks.map some, taken⟩, d, acts⟩ rfl ks).ok h taken acts, fun h taken acts =>
    (hk ⟨⟨ks.map some, taken⟩, d, acts⟩ rfl ks).blocked h taken acts⟩

/-- A handler of exceptions: there are none, and a program that is still writing has not thrown one. -/
theorem Emits.tryCatch {m : Exec (Sending δ) α} {k : Halt → Exec (Sending δ) α} (hm : Emits m d ps a d')
    (hk : k .blocked = throw .blocked) : Emits (tryCatch m k) d ps a d' := by
  intro ks
  constructor
  · intro w rest h taken acts
    obtain ⟨acts', hu⟩ := (hm ks).ok h taken acts
    exact ⟨acts', by rw [Exec.tryCatch_run, hu]⟩
  · intro h taken acts
    obtain ⟨u, hu⟩ := (hm ks).blocked h taken acts
    refine ⟨u, ?_⟩
    rw [Exec.tryCatch_run, hu]
    show k .blocked u = .error .blocked u
    rw [hk]
    rfl

/-! ## The loops -/

/-- A loop that has nothing left. -/
theorem emitsOn_loop_nil (ks : List Nat) (bound : Nat) (a : α) (d : δ) :
    EmitsOn ks (pure a) d [.loop bound []] a d := by
  constructor
  · intro w rest h taken acts
    rw [send_loop, sendLoop_nil] at h
    cases h
    exact ⟨acts, by simp⟩
  · intro h
    rw [send_loop, sendLoop_nil] at h
    cases h

/-- An iteration offers a first block of what is left, and goes on with what is left of that. -/
theorem EmitsOn.loop {bound j : Nat} {payload block : Bytes} {k : Nat → Exec (Sending δ) α} (hne : payload ≠ [])
    (hblock : block = payload.take bound)
    (hk : EmitsOn ks (k (min j block.length)) d [.loop bound (payload.drop (min j block.length))] a d') :
    EmitsOn (j :: ks) (Socket.write block >>= k) d [.loop bound payload] a d' := by
  have hw : ∀ taken acts, Socket.write block ⟨⟨(j :: ks).map some, taken⟩, d, acts⟩ =
      .ok (min j block.length) ⟨⟨ks.map some, taken ++ block.take j⟩, d, acts⟩ := fun _ _ => rfl
  have htake : block.take j = payload.take (min j bound) := by rw [hblock, List.take_take]
  have hdrop : payload.drop (min j block.length) = payload.drop (min j bound) := by
    rw [hblock, List.length_take, ← Nat.min_assoc, ← List.drop_eq_drop_min]
  rw [hdrop] at hk
  constructor
  · intro w rest h taken acts
    rw [send_loop, sendLoop_cons hne, Option.map_eq_some_iff] at h
    obtain ⟨⟨w', rest'⟩, hs, he⟩ := h
    cases he
    obtain ⟨acts', hu⟩ := hk.ok ((send_loop _ _ _).trans hs) (taken ++ block.take j) acts
    exact ⟨acts', by rw [Exec.bind_of_ok (hw taken acts), hu, List.append_assoc, htake]⟩
  · intro h taken acts
    rw [send_loop, sendLoop_cons hne, Option.map_eq_none_iff] at h
    rw [Exec.bind_of_ok (hw taken acts)]
    exact hk.blocked ((send_loop _ _ _).trans h) _ _

/-- An iteration at the end of the schedule. -/
theorem emitsOn_loop_stuck {bound : Nat} {payload : Bytes} (hne : payload ≠ []) (block : Bytes)
    (k : Nat → Exec (Sending δ) α) (d : δ) (a : α) (d' : δ) :
    EmitsOn [] (write block >>= k) d [.loop bound payload] a d' := by
  constructor
  · intro w rest h
    rw [send_loop, sendLoop_stuck hne] at h
    cases h
  · intro _ taken acts
    exact ⟨_, Exec.bind_of_error rfl⟩

/-- An iteration of `writeLargeData` offers what is left, up to its block length. -/
theorem payloadLoop_succ {buf : Bytes} {p : Nat} (hp : p < buf.length) (n bl : Nat) :
    (payloadLoop buf (n + 1) p bl : Exec (Sending δ) Unit) =
      write ((buf.drop p).take bl) >>= fun wn => payloadLoop buf n (p + wn) (min bl (buf.length - p)) := by
  have hmin : (if bl > buf.length - p then buf.length - p else bl) = min bl (buf.length - p) := by
    split <;> omega
  have htake : (buf.drop p).take (min bl (buf.length - p)) = (buf.drop p).take bl := by
    rw [← List.length_drop, ← List.take_eq_take_min]
  conv_lhs => unfold payloadLoop
  rw [if_pos hp]
  dsimp only
  rw [wrap_clamped buf p bl hp, hmin, htake]

/-- The loop of `writeLargeData` offers blocks of at most 2048 bytes. Its block length shrinks with what is left. -/
theorem payloadLoop_emitsOn (buf : Bytes) (d : δ) (ks : List Nat) : ∀ n p bl, ks.length < n → p ≤ buf.length →
    min bl (buf.length - p) = min 2048 (buf.length - p) →
      EmitsOn ks (payloadLoop buf n p bl) d [.loop 2048 (buf.drop p)] () d := by
  induction ks with
  | nil =>
    intro n p bl hn hp hbl
    obtain ⟨n, rfl⟩ : ∃ m, n = m + 1 := ⟨n - 1, by omega⟩
    rcases Nat.lt_or_eq_of_le hp with hlt | rfl
    · rw [payloadLoop_succ hlt]
      exact emitsOn_loop_stuck (fun h => by simp at h; omega) _ _ _ _ _
    · unfold payloadLoop
      rw [if_neg (Nat.lt_irrefl _), List.drop_length]
      exact emitsOn_loop_nil _ _ _ _
  | cons j ks ih =>
    intro n p bl hn hp hbl
    obtain ⟨n, rfl⟩ : ∃ m, n = m + 1 := ⟨n - 1, by omega⟩
    rw [List.length_cons] at hn
    rcases Nat.lt_or_eq_of_le hp with hlt | rfl
    · rw [payloadLoop_succ hlt]
      have hblock : (buf.drop p).take bl = (buf.drop p).take 2048 := by
        rw [List.take_eq_take_min, List.length_drop, hbl, ← List.length_drop, ← List.take_eq_take_min]
      refine EmitsOn.loop (fun h => by simp at h; omega) hblock ?_
      rw [List.drop_drop]
      have hlen : min j ((buf.drop p).take bl).length ≤ buf.length - p := by
        rw [List.length_take, List.length_drop]
        omega
      exact ih n _ _ (by omega) (by omega) (by omega)
    · unfold payloadLoop
      rw [if_neg (Nat.lt_irrefl _), List.drop_length]
      exact emitsOn_loop_nil _ _ _ _

/-- The loop of the remote transfer offers all that is left. -/
theorem remainLoop_emitsOn (bound : Nat) (d : δ) (ks : List Nat) : ∀ n (buf : Bytes), ks.length < n →
    buf.length ≤ bound → EmitsOn ks (remainLoop n buf) d [.loop bound buf] () d := by
  induction ks with
  | nil =>
    intro n buf hn hb
    obtain ⟨n, rfl⟩ : ∃ m, n = m + 1 := ⟨n - 1, by omega⟩
    unfold remainLoop
    by_cases hne : buf = []
    · subst hne
      exact emitsOn_loop_nil _ _ _ _
    · rw [if_pos hne]
      exact emitsOn_loop_stuck hne _ _ _ _ _
  | cons j ks ih =>
    intro n buf hn hb
    obtain ⟨n, rfl⟩ : ∃ m, n = m + 1 := ⟨n - 1, by omega⟩
    rw [List.length_cons] at hn
    unfold remainLoop
    by_cases hne : buf = []
    · subst hne
      exact emitsOn_loop_nil _ _ _ _
    · rw [if_pos hne]
      refine EmitsOn.loop hne (List.take_of_length_le hb).symm ?_
      refine ih n _ (by omega) ?_
      rw [List.length_drop]
      omega

/-! ## The answers in parts -/

/-- The header of a frame: three blocks, each offered once. -/
def headerParts (n : Nat) : List (MessagePart UInt8) := [.once [0x23], .once (putInt n), .once [0x0A]]

/-- What `writeLargeData` sends of what the provider returns. -/
def largeParts : Option ByteArr → List (MessagePart UInt8)
  | some buf => headerParts buf.1.length ++ [.loop 2048 buf.1]
  | none => [.once [0x23], .once (putInt 0)]

/-- The answers to large-data queries, and the instrument after them. -/
def eachParts (E : Env κ δ) : List JString → δ → List (MessagePart UInt8) × δ
  | [], d => ([], d)
  | p :: ps, d =>
    let rest := eachParts E ps (E.factory.getData p d).2
    (largeParts (E.factory.getData p d).1 ++ rest.1, rest.2)

def lineParts (E : Env κ δ) (line : JString) : List (MessagePart UInt8) := [.once (E.charset.encode line)]

/-- The frame of the remote transfer, and the empty status that is written after it. -/
def remoteFrameParts (E : Env κ δ) (buf : Bytes) : List (MessagePart UInt8) :=
  headerParts buf.length ++ [.loop buf.length buf] ++ lineParts E []

/-- The status of a local transfer to a directory. -/
def localLine (E : Env κ δ) (path : JString) (d : δ) : JString :=
  let dest := E.platform.timestamp d ++ lit ".bin"
  if E.platform.dmfExists d then
    if (E.platform.copyToDest path dest d).1 then lit "SUCCESS: " ++ E.platform.absolutePath path dest ++ lit "\n"
    else lit "FAILED: " ++ E.platform.absolutePath path dest ++ lit "\n"
  else lit "FAILED: DEEPMEMORY DATA NULL\n"

/-- The directory that a command says, if it says one. -/
def pathOf (cmd : Option JString) : Option JString :=
  cmd.bind fun cmd => (substring (removeSemicolons cmd) (lit "*LDM?").length).map trim

/-- The frame or the status of a remote transfer, where the length of the file is not negative as an `int`. -/
def remoteParts (E : Env κ δ) (d : δ) : Option (List (MessagePart UInt8)) :=
  let copied := E.platform.copyToTemp d
  if copied.1 ∧ E.platform.tempExists copied.2 then
    let content := E.platform.tempContent copied.2
    let dataLen := (content.length : Int).bmod (0x100000000)
    if dataLen < 0 then none else some (remoteFrameParts E (content.take dataLen.toNat))
  else some (lineParts E (lit "TRANSMITSSION FAILED\n"))

/-- What the transfer sends, and its status. -/
def transferParts (E : Env κ δ) (remote : Bool) (cmd : Option JString) (d : δ) : Option (List (MessagePart UInt8)) :=
  if remote then remoteParts E d else (pathOf cmd).map fun path => lineParts E (localLine E path d)

/-- The answer to a deep-memory query. -/
def dmParts (E : Env κ δ) (remote : Bool) (cmd : Option JString) (d : δ) : Option (List (MessagePart UInt8)) :=
  let d := if E.platform.isRuntime d then E.platform.statusStop d else d
  if E.platform.isRTWhenLoad d && E.platform.isConnected d then transferParts E remote cmd (E.platform.persistDmData d)
  else some (lineParts E (lit "TRANSMITSSION FAILED AS OFFLINE\n"))

/-- **The answer to an attachment**, in parts; there is none where the write step throws. -/
def responseParts (E : Env κ δ) (f : Flags) (cmd : Option JString) (d : δ) : Option (List (MessagePart UInt8)) :=
  if f.onlargeTransmit then cmd.map fun cmd => (eachParts E (split semicolon (trim cmd)) d).1
  else if f.onDmTransmit then dmParts E f.isRemoteTransmit cmd d
  else some (lineParts E (cmd.getD (lit "null") ++ lit "\n"))

theorem message_frame (buf : Bytes) (bound : Nat) :
    message (headerParts buf.length ++ [.loop bound buf]) = frame buf := by
  simp [message, headerParts, MessagePart.content, frame]

/-! ## What the programs send -/

theorem loop_emits {bound : Nat} {buf : Bytes} {m : Nat → Exec (Sending δ) Unit}
    (h : ∀ ks n, ks.length < n → EmitsOn ks (m n) d [.loop bound buf] () d) :
    Emits (get >>= fun s => m (s.channel.schedule.length + 1)) d [.loop bound buf] () d := by
  intro ks
  have hm := h ks (ks.length + 1) (Nat.lt_succ_self _)
  constructor
  · intro w rest hs taken acts
    rw [Exec.get_bind, List.length_map]
    exact hm.ok hs taken acts
  · intro hs taken acts
    rw [Exec.get_bind, List.length_map]
    exact hm.blocked hs taken acts

theorem writeLargeData_emits (cmd : JString) (d : δ) :
    Emits (writeLargeData E cmd) d (largeParts (E.factory.getData cmd d).1) () (E.factory.getData cmd d).2 := by
  unfold writeLargeData
  rw [encode_hash, encode_lf]
  refine Emits.act (Emits.device ?_)
  cases (E.factory.getData cmd d).1 with
  | some buf =>
    refine Emits.write fun _ => Emits.write fun _ => Emits.write fun _ => ?_
    exact loop_emits (m := fun n => payloadLoop buf.1 n 0 2048) fun ks n hn =>
      payloadLoop_emitsOn buf.1 _ ks n 0 2048 hn (Nat.zero_le _) rfl
  | none => exact Emits.write fun _ => Emits.write fun _ => emits_pure _ _

theorem writeEach_emits (ps : List JString) (d : δ) :
    Emits (writeEach E ps) d (eachParts E ps d).1 () (eachParts E ps d).2 := by
  induction ps generalizing d with
  | nil => exact emits_pure _ _
  | cons p ps ih => exact Emits.bind (writeLargeData_emits p d) (ih _)

theorem sendFrame_emits (buf : Bytes) (d : δ) :
    Emits (sendFrame E buf) d (headerParts buf.length ++ [.loop buf.length buf]) [] d := by
  unfold sendFrame
  rw [encode_hash, encode_lf]
  refine Emits.write fun _ => Emits.write fun _ => Emits.write fun _ => ?_
  have hloop : Emits (get >>= fun s : Sending δ => remainLoop (s.channel.schedule.length + 1) buf) d
      [.loop buf.length buf] () d :=
    loop_emits (m := fun n => remainLoop n buf) fun ks n hn => remainLoop_emitsOn _ d ks n buf hn (Nat.le_refl _)
  have hbind := hloop.bind (k := fun _ => (pure [] : Exec (Sending δ) JString)) (emits_pure [] d)
  rw [bind_assoc] at hbind
  exact hbind

/-- The instrument after a local transfer: the file, if there is one, is copied to the directory. -/
def afterLocal (E : Env κ δ) (path : JString) (d : δ) : δ :=
  if E.platform.dmfExists d then (E.platform.copyToDest path (E.platform.timestamp d ++ lit ".bin") d).2 else d

/-- **The local transfer**, where the command says a directory. -/
theorem localDmTransmit_run {cmd : Option JString} {path : JString} (h : pathOf cmd = some path) (s : Sending δ) :
    localDmTransmit E cmd s = .ok (localLine E path s.dev) { s with dev := afterLocal E path s.dev } := by
  obtain ⟨cmd, rfl, hp⟩ := Option.bind_eq_some_iff.1 h
  obtain ⟨rest, hsub, rfl⟩ := Option.map_eq_some_iff.1 hp
  unfold localDmTransmit localLine afterLocal
  dsimp only
  rw [hsub]
  dsimp only
  rw [Exec.get_bind, Exec.get_bind]
  by_cases hx : E.platform.dmfExists s.dev = true
  · rw [if_pos hx, if_pos hx, if_pos hx, device_bind]
    rfl
  · rw [if_neg hx, if_neg hx, if_neg hx]
    rfl

theorem localDmTransmit_emits {cmd : Option JString} {path : JString} (h : pathOf cmd = some path) (d : δ) :
    Emits (localDmTransmit E cmd) d [] (localLine E path d) (afterLocal E path d) := by
  refine fun ks => ⟨fun {w rest} hs taken acts => ?_, fun hs => by cases hs⟩
  cases hs
  exact ⟨acts, by rw [localDmTransmit_run h, List.append_nil]⟩

theorem localDmTransmit_throws {cmd : Option JString} (h : pathOf cmd = none) (s : Sending δ) :
    ∃ e t, localDmTransmit E cmd s = .error (.thrown e) t := by
  cases cmd with
  | none => exact ⟨_, _, rfl⟩
  | some cmd =>
    have hsub : substring (removeSemicolons cmd) (lit "*LDM?").length = none := Option.map_eq_none_iff.1 h
    unfold localDmTransmit
    dsimp only
    rw [hsub]
    exact ⟨_, _, rfl⟩

/-- The remote transfer sends the frame of the file it copied, as far as the length is an `int`. -/
theorem remoteFrame_emits (hc : (E.platform.copyToTemp d).1 = true)
    (hx : E.platform.tempExists (E.platform.copyToTemp d).2 = true) {dataLen : Int} {buf : Bytes}
    (hlen : ((E.platform.tempContent (E.platform.copyToTemp d).2).length : Int).bmod (0x100000000) = dataLen)
    (hneg : ¬ dataLen < 0) (hbuf : (E.platform.tempContent (E.platform.copyToTemp d).2).take dataLen.toNat = buf) :
    Emits (remoteDmTransmit E) d (headerParts buf.length ++ [.loop buf.length buf]) []
      (E.platform.copyToTemp d).2 := by
  unfold remoteDmTransmit
  dsimp only
  refine Emits.device ?_
  rw [if_pos hc]
  refine Emits.get fun s hs => ?_
  rw [hs, if_pos hx, hlen, if_neg hneg, hbuf]
  exact Emits.tryCatch (sendFrame_emits _ _) rfl

/-- The remote transfer sends the frame, or returns a status. -/
theorem remoteDmTransmit_emits (d : δ) : (remoteParts E d = none →
      ∀ s : Sending δ, s.dev = d → ∃ e t, remoteDmTransmit E s = .error (.thrown e) t) ∧
    ∀ ps, remoteParts E d = some ps →
      ∃ qs rsp d', Emits (remoteDmTransmit E) d qs rsp d' ∧ ps = qs ++ lineParts E rsp := by
  unfold remoteParts
  dsimp only
  by_cases hc : (E.platform.copyToTemp d).1 = true
  · by_cases hx : E.platform.tempExists (E.platform.copyToTemp d).2 = true
    · rw [if_pos ⟨hc, hx⟩]
      generalize hlen : ((E.platform.tempContent (E.platform.copyToTemp d).2).length : Int).bmod (0x100000000) = dataLen
      by_cases hneg : dataLen < 0
      · rw [if_pos hneg]
        refine ⟨fun _ s hs => ?_, nofun⟩
        unfold remoteDmTransmit
        dsimp only
        rw [device_bind, hs, if_pos hc, Exec.get_bind, if_pos hx, hlen, if_pos hneg]
        exact ⟨_, _, rfl⟩
      · rw [if_neg hneg]
        refine ⟨nofun, fun ps h => ?_⟩
        cases h
        exact ⟨_, [], _, remoteFrame_emits hc hx hlen hneg rfl, rfl⟩
    · rw [if_neg (fun h => hx h.2)]
      refine ⟨nofun, fun ps h => ?_⟩
      cases h
      unfold remoteDmTransmit
      refine ⟨[], _, (E.platform.copyToTemp d).2, Emits.device ?_, rfl⟩
      rw [if_pos hc]
      refine Emits.get fun s hs => ?_
      rw [hs, if_neg hx]
      exact emits_pure _ _
  · rw [if_neg (fun h => hc h.1)]
    refine ⟨nofun, fun ps h => ?_⟩
    cases h
    unfold remoteDmTransmit
    refine ⟨[], _, (E.platform.copyToTemp d).2, Emits.device ?_, rfl⟩
    rw [if_neg hc]
    exact emits_pure _ _

theorem dmResponse_emits (remote : Bool) (cmd : Option JString) (d : δ) : (transferParts E remote cmd d = none →
      ∀ s : Sending δ, s.dev = d → ∃ e t, dmResponse E remote cmd s = .error (.thrown e) t) ∧
    ∀ ps, transferParts E remote cmd d = some ps →
      ∃ qs rsp d', Emits (dmResponse E remote cmd) d qs rsp d' ∧ ps = qs ++ lineParts E rsp := by
  unfold transferParts dmResponse
  cases remote with
  | true => exact remoteDmTransmit_emits d
  | false =>
    rw [if_neg Bool.false_ne_true, if_neg Bool.false_ne_true]
    constructor
    · intro h s _
      exact localDmTransmit_throws (Option.map_eq_none_iff.1 h) s
    · intro ps h
      obtain ⟨path, hp, rfl⟩ := Option.map_eq_some_iff.1 h
      exact ⟨[], _, _, localDmTransmit_emits hp d, rfl⟩

theorem writeDmData_emits (remote : Bool) (cmd : Option JString) (d : δ) : (dmParts E remote cmd d = none →
      ∀ s : Sending δ, s.dev = d → ∃ e t, writeDmData E remote cmd s = .error (.thrown e) t) ∧
    ∀ ps, dmParts E remote cmd d = some ps → ∃ d', Emits (writeDmData E remote cmd) d ps () d' := by
  unfold dmParts writeDmData
  dsimp only
  generalize hd₁ : (if E.platform.isRuntime d = true then E.platform.statusStop d else d) = d₁
  by_cases hon : (E.platform.isRTWhenLoad d₁ && E.platform.isConnected d₁) = true
  · rw [if_pos hon]
    obtain ⟨hthrows, hemits⟩ := dmResponse_emits (E := E) remote cmd (E.platform.persistDmData d₁)
    constructor
    · intro h s hs
      rw [act_bind, device_bind, hs, hd₁, Exec.get_bind, if_pos hon, device_bind]
      obtain ⟨e, t, ht⟩ := hthrows h ⟨s.channel, E.platform.persistDmData d₁, s.acts ++ [.writeDmData remote cmd]⟩ rfl
      exact ⟨e, t, Exec.bind_of_error ht⟩
    · intro ps h
      obtain ⟨qs, rsp, d', hm, rfl⟩ := hemits ps h
      refine ⟨d', Emits.act (Emits.device ?_)⟩
      dsimp only
      rw [hd₁]
      refine Emits.get fun s hs => ?_
      rw [hs, if_pos hon]
      -- the status is offered once, after what the transfer has sent
      exact Emits.device (hm.bind (Emits.write fun _ => emits_pure () d'))
  · rw [if_neg hon]
    refine ⟨nofun, fun ps h => ?_⟩
    cases h
    refine ⟨d₁, Emits.act (Emits.device ?_)⟩
    dsimp only
    rw [hd₁]
    refine Emits.get fun s hs => ?_
    rw [hs, if_neg hon]
    exact Emits.write fun _ => emits_pure _ _

/-! ## The write step -/

/-- A write step that ends has sent some bytes by a program that ended. -/
theorem sending_emits {m : Exec (Sending δ) Unit} {s s' : Server δ} {out : List Act × Bytes} {ks : List Nat}
    (hm : Emits m s.dev ps () d') (h : sending (ks.map some) m s = .ok out s') : send ps ks = some (out.2, []) := by
  obtain ⟨t, ht, hsch, hout, -⟩ := sending_ok h
  cases hs : send ps ks with
  | none =>
    obtain ⟨u, hu⟩ := (hm ks).blocked hs [] []
    rw [ht] at hu
    cases hu
  | some r =>
    obtain ⟨acts', hu⟩ := (hm ks).ok hs [] []
    rw [ht] at hu
    cases hu
    have hrest : r.2 = [] := by simpa using hsch
    rw [hout, ← hrest]
    rfl

/-- An answer that ends is sent in its parts. -/
theorem dispatch_emits {cmd : Option JString} {s s' : Server δ} {mode : Mode} {acts : List Act} {sent : Bytes}
    {ks : List Nat} (h : dispatch E cmd (ks.map some) s = .ok (mode, acts, sent) s') :
    ∃ ps, responseParts E s.flags cmd s.dev = some ps ∧ send ps ks = some (sent, []) := by
  unfold dispatch at h
  rw [Exec.get_bind] at h
  unfold responseParts
  by_cases hl : s.flags.onlargeTransmit = true
  · rw [if_pos hl] at h ⊢
    cases cmd with
    | none => cases h
    | some cmd =>
      obtain ⟨out, u, hs, h⟩ := Exec.ok_bind.1 h
      rw [Exec.modify_bind] at h
      cases h
      exact ⟨_, rfl, sending_emits (writeEach_emits _ _) hs⟩
  · rw [if_neg hl] at h ⊢
    by_cases hd : s.flags.onDmTransmit = true
    · rw [if_pos hd] at h ⊢
      obtain ⟨out, u, hs, h⟩ := Exec.ok_bind.1 h
      rw [Exec.modify_bind] at h
      cases h
      obtain ⟨hthrows, hemits⟩ := writeDmData_emits (E := E) s.flags.isRemoteTransmit cmd s.dev
      cases hps : dmParts E s.flags.isRemoteTransmit cmd s.dev with
      | none =>
        obtain ⟨e, t, ht⟩ := hthrows hps ⟨⟨ks.map some, []⟩, s.dev, []⟩ rfl
        obtain ⟨t', ht', -⟩ := sending_ok hs
        rw [ht] at ht'
        cases ht'
      | some ps =>
        obtain ⟨d', hm⟩ := hemits ps hps
        exact ⟨ps, rfl, sending_emits hm hs⟩
    · rw [if_neg hd] at h ⊢
      obtain ⟨out, u, hs, h⟩ := Exec.ok_bind.1 h
      cases h
      exact ⟨_, rfl, sending_emits (Emits.act (Emits.write fun _ => emits_pure () s.dev)) hs⟩

/-- **When an answer is not cut short**: a write step that ends makes the client readable again, and what it sent is the
whole answer if and only if every write outside of the payload loops took all its bytes. -/
theorem writeStep_whole_iff {c : Nat} {k : Key} {ks : List Nat} {s s' : Server δ} (hk : s.keys c = some k)
    (h : writeStep E c (ks.map some) s = .ok () s') :
    ∃ ps d sent, responseParts E s.flags k.attachment s.dev = some ps ∧
      s' = s.afterAnswer c k.attachment d sent ∧ (sent = message ps ↔ OnceWhole ps ks) := by
  unfold writeStep at h
  rw [Exec.get_bind] at h
  obtain ⟨⟨mode, acts, sent⟩, u, hd, h⟩ := Exec.ok_bind.1 h
  rw [hk] at hd h
  obtain ⟨ps, hps, hs⟩ := dispatch_emits hd
  obtain ⟨rfl, rfl, d, rfl⟩ := dispatch_ok hd
  obtain ⟨_, v, hr, h⟩ := Exec.ok_bind.1 h
  cases hr
  cases h
  exact ⟨ps, d, sent, hps, rfl, send_whole_iff hs⟩

/-- A client that is to be sent a line. -/
def lineWaiting : Server Unit :=
  { Server.fresh () with keys := fun _ => some ⟨.opWrite, some (lit "CAN NOT ANALYSE THE ORDER")⟩ }

/-- A write that takes three bytes of the line: the step ends, and the rest is never sent. -/
theorem line_cut_short :
    ∃ s' ps, writeStep (bench true none []) 0 ([3].map some) lineWaiting = .ok () s' ∧
      s'.keys 0 = some ⟨.opRead, none⟩ ∧
      s'.history = [.answer 0 (lit "CAN NOT ANALYSE THE ORDER") .text
        [.text (lit "CAN NOT ANALYSE THE ORDER\n")] [0x43, 0x41, 0x4E]] ∧
      responseParts (bench true none []) lineWaiting.flags (some (lit "CAN NOT ANALYSE THE ORDER")) () = some ps ∧
      message ps ≠ [0x43, 0x41, 0x4E] :=
  ⟨_, _, rfl, rfl, rfl, rfl, by decide⟩

theorem writeStep_whole_iff_line :
    ∃ s' ps d sent, responseParts (bench true none []) lineWaiting.flags
        (some (lit "CAN NOT ANALYSE THE ORDER")) () = some ps ∧
      s' = lineWaiting.afterAnswer 0 (some (lit "CAN NOT ANALYSE THE ORDER")) d sent ∧
        (sent = message ps ↔ OnceWhole ps [26]) :=
  ⟨_, writeStep_whole_iff (E := bench true none []) (c := 0) (s := lineWaiting) rfl rfl⟩

end OwonVds.Socket
