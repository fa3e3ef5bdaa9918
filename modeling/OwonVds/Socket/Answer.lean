import OwonVds.Socket.Batch
import OwonVds.Socket.Isolation
import OwonVds.Socket.Short

/-!
# The instrument's answers

`query` is the instrument without its channels: a query is answered with data, or with a status in text, and the
instrument goes to its next state. `*ADC?` asks the data provider, `*RDM?` for the file of the deep memory, `*LDM?` for
a copy of that file in a directory of the instrument's host.

`answering` is what a write step runs. Under the flags that the kind of the query raises it sends the wire form of the
answer, in parts, and leaves the instrument in the state after the answer (`query_answered`).
-/

namespace OwonVds.Socket

open Java Parts

variable {κ δ : Type} {E : Env κ δ}

/-! ## Answers -/

inductive Answer
  | text (reply : JString)
  | data (payload : Bytes)
  /-- The provider has no data. -/
  | nothing
  deriving DecidableEq, Repr

/-- What is sent of an answer. -/
def Answer.wire (cs : Charset) : Answer → Bytes
  | .text reply => cs.encode (reply ++ lit "\n")
  | .data payload => frame payload
  | .nothing => 0x23 :: putInt 0

def provided (F : CmdFactory κ δ) (line : JString) (d : δ) : Answer × δ :=
  (((F.getData line d).1.map fun buf => .data buf.1).getD .nothing, (F.getData line d).2)

/-- The file of the deep memory, by way of the temporary file. -/
def fetched (P : Platform δ) (d : δ) : Answer × δ :=
  let copied := P.copyToTemp d
  (if copied.1 ∧ P.tempExists copied.2 then .data (P.tempContent copied.2) else .text (lit "TRANSMITSSION FAILED"),
    copied.2)

/-- A copy of the file in a directory of the host. -/
def stored (P : Platform δ) (path : JString) (d : δ) : Answer × δ :=
  let dest := P.timestamp d ++ lit ".bin"
  if P.dmfExists d then
    let copied := P.copyToDest path dest d
    (.text ((if copied.1 then lit "SUCCESS: " else lit "FAILED: ") ++ P.absolutePath path dest), copied.2)
  else (.text (lit "FAILED: DEEPMEMORY DATA NULL"), d)

/-- The instrument is stopped; where it is online, its deep memory is saved first. -/
def deepMemory (P : Platform δ) (remote : Bool) (path : JString) (d : δ) : Answer × δ :=
  let d := if P.isRuntime d then P.statusStop d else d
  if P.isRTWhenLoad d && P.isConnected d then
    if remote then fetched P (P.persistDmData d) else stored P path (P.persistDmData d)
  else (.text (lit "TRANSMITSSION FAILED AS OFFLINE"), d)

def query (E : Env κ δ) (line : JString) (d : δ) : Answer × δ :=
  if kindOf line = .adc then provided E.factory line d
  else deepMemory E.platform (kindOf line = .rdm) (trim (line.drop (lit "*LDM?").length)) d

/-! ## Flags and modes -/

theorem mode_large {f : Flags} : f.mode = .large ↔ f.onlargeTransmit = true := by
  obtain ⟨l, dm, r⟩ := f
  cases l <;> cases dm <;> cases r <;> decide

theorem mode_text {f : Flags} : f.mode = .text ↔ f.onlargeTransmit = false ∧ f.onDmTransmit = false := by
  obtain ⟨l, dm, r⟩ := f
  cases l <;> cases dm <;> cases r <;> decide

theorem mode_dm {f : Flags} {remote : Bool} : f.mode = (if remote then .remote else .local) ↔
    f.onlargeTransmit = false ∧ f.onDmTransmit = true ∧ f.isRemoteTransmit = remote := by
  obtain ⟨l, dm, r⟩ := f
  cases l <;> cases dm <;> cases r <;> cases remote <;> decide

/-- Not a data query and a transfer at a time. -/
def Flags.Single (f : Flags) : Prop := f.onlargeTransmit = true → f.onDmTransmit = false

theorem mark_mode {f : Flags} (h : f.mode = .text) (k : Kind) : (f.mark k).mode = k.mode := by
  obtain ⟨l, dm, r⟩ := f
  obtain ⟨rfl, rfl⟩ : l = false ∧ dm = false := mode_text.1 h
  cases k <;> cases r <;> rfl

theorem mark_single {f : Flags} (h : f.mode = .text) (k : Kind) : (f.mark k).Single := by
  obtain ⟨-, hdm⟩ := mode_text.1 h
  cases k with
  | adc => exact fun _ => hdm
  | ldm => exact fun hl => absurd hl (by rw [Flags.mark, (mode_text.1 h).1]; exact Bool.false_ne_true)
  | rdm => exact fun hl => absurd hl (by rw [Flags.mark, (mode_text.1 h).1]; exact Bool.false_ne_true)
  | text => exact fun _ => hdm

theorem Flags.Single.reset {f : Flags} (h : f.Single) : f.reset.mode = .text := by
  obtain ⟨l, dm, r⟩ := f
  cases l with
  | true =>
    obtain rfl : dm = false := h rfl
    rfl
  | false => cases dm <;> rfl

theorem single_of_text {f : Flags} (h : f.mode = .text) : f.Single := fun _ => (mode_text.1 h).2

/-! ## The program of a write step -/

/-- What a write step runs for an attachment. -/
def answering (E : Env κ δ) (f : Flags) (cmd : JString) : Exec (Sending δ) Unit :=
  if f.onlargeTransmit then writeEach E (split semicolon (trim cmd))
  else if f.onDmTransmit then writeDmData E f.isRemoteTransmit (some cmd)
  else do
    act (.text (cmd ++ lit "\n"))
    let _ ← write (E.charset.encode (cmd ++ lit "\n"))

section Sends

variable {s : Server δ} {c : Nat} {cmd : JString} {ks : List Nat} {ps : List (MessagePart UInt8)} {w : Bytes} {d' : δ}

theorem sending_sends {m : Exec (Sending δ) Unit} (hm : Emits m s.dev ps () d') (hs : send ps ks = some (w, [])) :
    ∃ acts, sending (ks.map some) m s = .ok (acts, w) { s with dev := d' } := by
  obtain ⟨acts, h⟩ := (hm ks).ok hs [] []
  refine ⟨acts, ?_⟩
  unfold sending
  rw [h]
  simp

theorem dispatch_sends (hm : Emits (answering E s.flags cmd) s.dev ps () d') (hs : send ps ks = some (w, [])) :
    ∃ acts, dispatch E (some cmd) (ks.map some) s =
      .ok (s.flags.mode, acts, w) { s with flags := s.flags.reset, dev := d' } := by
  obtain ⟨acts, h⟩ := sending_sends hm hs
  refine ⟨acts, ?_⟩
  unfold dispatch
  rw [Exec.get_bind]
  unfold answering at h
  unfold Flags.mode Flags.reset
  by_cases hl : s.flags.onlargeTransmit = true
  · simp only [if_pos hl] at h ⊢
    rw [Exec.bind_of_ok h]
    rfl
  · by_cases hd : s.flags.onDmTransmit = true
    · simp only [if_neg hl, if_pos hd] at h ⊢
      rw [Exec.bind_of_ok h]
      rfl
    · simp only [if_neg hl, if_neg hd] at h ⊢
      exact Exec.bind_of_ok h

/-- **A write step sends** what its program emits, and goes on with the instrument that the program leaves. -/
theorem writeStep_sends (hk : s.keys c = some ⟨.opWrite, some cmd⟩)
    (hm : Emits (answering E s.flags cmd) s.dev ps () d') (hs : send ps ks = some (w, [])) :
    writeStep E c (ks.map some) s = .ok () (s.afterAnswer c (some cmd) d' w) := by
  obtain ⟨acts, h⟩ := dispatch_sends hm hs
  obtain ⟨-, rfl, -⟩ := dispatch_ok h
  unfold writeStep
  rw [Exec.get_bind, hk]
  exact Exec.bind_of_ok h

end Sends

/-! ## The answers in parts -/

/-- Under the flags, the answer to an attachment is sent in these parts, and the instrument goes to its next state. -/
structure AnsweredBy (E : Env κ δ) (f : Flags) (cmd : JString) (d : δ) (r : Answer × δ)
    (ps : List (MessagePart UInt8)) : Prop where
  parts : responseParts E f (some cmd) d = some ps
  emits : Emits (answering E f cmd) d ps () r.2
  whole : message ps = r.1.wire E.charset
  loops : ∀ bound payload, .loop bound payload ∈ ps → payload ≠ [] → 0 < bound

/-- A line of text is its own answer. -/
theorem text_answered (E : Env κ δ) {f : Flags} (hf : f.mode = .text) (cmd : JString) (d : δ) :
    AnsweredBy E f cmd d (.text cmd, d) (lineParts E (cmd ++ lit "\n")) := by
  obtain ⟨hl, hd⟩ := mode_text.1 hf
  refine ⟨?_, ?_, ?_, ?_⟩
  · simp [responseParts, hl, hd]
  · simp only [answering, hl, hd, Bool.false_eq_true, if_false]
    exact Emits.act (Emits.write fun _ => emits_pure () d)
  · simp [message, lineParts, MessagePart.content, Answer.wire]
  · simp [lineParts]

theorem message_large (data : Option ByteArr) (cs : Charset) :
    message (largeParts data) = (((data.map fun buf => .data buf.1).getD .nothing : Answer)).wire cs := by
  cases data with
  | some buf => exact message_frame buf.1 2048
  | none => simp [message, largeParts, MessagePart.content, Answer.wire]

theorem adc_answered (E : Env κ δ) {f : Flags} (hf : f.onlargeTransmit = true) {line : JString}
    (hk : kindOf line ≠ .text) (hs : semicolon ∉ line) (d : δ) :
    AnsweredBy E f (line ++ lit ";") d (provided E.factory line d) (largeParts (E.factory.getData line d).1) := by
  have hpieces : split semicolon (trim (line ++ lit ";")) = [line] := by
    have h := pieces_single hk hs
    rwa [List.map_singleton, List.intercalate_singleton] at h
  refine ⟨?_, ?_, message_large _ _, ?_⟩
  · simp [responseParts, hf, hpieces, eachParts]
  · simp only [answering, hf, if_true, hpieces]
    show Emits (writeEach E [line]) d (largeParts (E.factory.getData line d).1) () (E.factory.getData line d).2
    simpa only [eachParts, List.append_nil] using writeEach_emits (E := E) [line] d
  · cases (E.factory.getData line d).1 <;> simp [largeParts, headerParts]

/-! ## Deep memory -/

/-- A transfer puts parts on the channel, and its status in the end. -/
structure Transfers (E : Env κ δ) (m : Exec (Sending δ) JString) (d : δ) (r : Answer × δ)
    (qs : List (MessagePart UInt8)) (rsp : JString) : Prop where
  emits : Emits m d qs rsp r.2
  whole : message (qs ++ lineParts E rsp) = r.1.wire E.charset
  loops : ∀ bound payload, .loop bound payload ∈ qs → payload ≠ [] → 0 < bound

theorem transfers_status {m : Exec (Sending δ) JString} {d d' : δ} {reply : JString}
    (h : Emits m d [] (reply ++ lit "\n") d') : Transfers E m d (.text reply, d') [] (reply ++ lit "\n") where
  emits := h
  whole := by simp [message, lineParts, MessagePart.content, Answer.wire]
  loops := fun _ _ hp => absurd hp List.not_mem_nil

theorem remoteDmTransmit_fetches (E : Env κ δ) {d : δ}
    (hlen : ∀ payload, (fetched E.platform d).1 = .data payload → payload.length < 0x80000000) :
    ∃ qs rsp, remoteParts E d = some (qs ++ lineParts E rsp) ∧
      Transfers E (remoteDmTransmit E) d (fetched E.platform d) qs rsp := by
  unfold fetched at hlen ⊢
  unfold remoteParts
  dsimp only at hlen ⊢
  by_cases hc : (E.platform.copyToTemp d).1 = true
  · by_cases hx : E.platform.tempExists (E.platform.copyToTemp d).2 = true
    · simp only [if_pos (And.intro hc hx)] at hlen ⊢
      generalize hbuf : E.platform.tempContent (E.platform.copyToTemp d).2 = buf at hlen ⊢
      have hbuf_lt := hlen buf rfl
      have hint : (buf.length : Int).bmod (0x100000000) = buf.length := by
        rw [Int.bmod_eq_of_le] <;> omega
      have hneg : ¬ (buf.length : Int) < 0 := by omega
      have htake : buf.take (buf.length : Int).toNat = buf := by rw [Int.toNat_natCast, List.take_length]
      rw [hint, if_neg hneg, htake]
      refine ⟨_, [], rfl, ?_, ?_, ?_⟩
      · refine remoteFrame_emits hc hx ?_ hneg ?_
        · rw [hbuf, hint]
        · rw [hbuf, htake]
      · have hnil : E.charset.encode [] = [] := E.charset.encode_ascii [] fun _ h => absurd h List.not_mem_nil
        rw [message_append, message_frame]
        simp [message, lineParts, MessagePart.content, Answer.wire, hnil]
      · intro bound payload hp hne
        obtain ⟨rfl, rfl⟩ : bound = buf.length ∧ payload = buf := by simpa [headerParts] using hp
        exact List.length_pos_of_ne_nil hne
    · rw [if_neg fun h => hx h.2, if_neg fun h => hx h.2]
      refine ⟨[], _, rfl, transfers_status (Emits.device ?_)⟩
      rw [if_pos hc]
      refine Emits.get fun s hs => ?_
      rw [hs, if_neg hx]
      exact emits_pure _ _
  · rw [if_neg fun h => hc h.1, if_neg fun h => hc h.1]
    refine ⟨[], _, rfl, transfers_status (Emits.device ?_)⟩
    rw [if_neg hc]
    exact emits_pure _ _

/-- The status line of a local transfer, and the instrument after it. -/
theorem stored_eq (E : Env κ δ) (path : JString) (d : δ) : ∃ reply, localLine E path d = reply ++ lit "\n" ∧
    stored E.platform path d = (.text reply, afterLocal E path d) := by
  unfold localLine stored afterLocal
  dsimp only
  by_cases hx : E.platform.dmfExists d = true
  · simp only [if_pos hx]
    refine ⟨_, ?_, rfl⟩
    split_ifs <;> rfl
  · simp only [if_neg hx]
    exact ⟨_, rfl, rfl⟩

theorem localDmTransmit_stores (E : Env κ δ) {cmd : Option JString} {path : JString} (h : pathOf cmd = some path)
    (d : δ) : ∃ rsp, transferParts E false cmd d = some ([] ++ lineParts E rsp) ∧
      Transfers E (localDmTransmit E cmd) d (stored E.platform path d) [] rsp := by
  obtain ⟨reply, hline, hstored⟩ := stored_eq E path d
  have hemits := localDmTransmit_emits (E := E) h d
  rw [hline] at hemits
  refine ⟨reply ++ lit "\n", ?_, ?_⟩
  · rw [transferParts, if_neg Bool.false_ne_true, h, Option.map_some, hline]
    rfl
  · rw [hstored]
    exact transfers_status hemits

theorem transfers_dm (E : Env κ δ) (remote : Bool) {cmd : Option JString} {path : JString}
    (hp : remote = false → pathOf cmd = some path) {d : δ}
    (hlen : ∀ payload, (if remote then fetched E.platform d else stored E.platform path d).1 = .data payload →
      payload.length < 0x80000000) :
    ∃ qs rsp, transferParts E remote cmd d = some (qs ++ lineParts E rsp) ∧
      Transfers E (dmResponse E remote cmd) d (if remote then fetched E.platform d else stored E.platform path d) qs
        rsp := by
  cases remote with
  | true => exact remoteDmTransmit_fetches E hlen
  | false => exact ⟨[], localDmTransmit_stores E (hp rfl) d⟩

/-- **The answer to a deep-memory query**, by the flags that it raises. -/
theorem dm_answered (E : Env κ δ) {f : Flags} (remote : Bool) (hf : f.mode = if remote then .remote else .local)
    {cmd path : JString} (hp : remote = false → pathOf (some cmd) = some path) {d : δ}
    (hlen : ∀ payload, (deepMemory E.platform remote path d).1 = .data payload → payload.length < 0x80000000) :
    ∃ ps, AnsweredBy E f cmd d (deepMemory E.platform remote path d) ps := by
  obtain ⟨hl, hdm, hremote⟩ := mode_dm.1 hf
  have hparts : responseParts E f (some cmd) d = dmParts E remote (some cmd) d := by
    simp [responseParts, hl, hdm, hremote]
  have hprogram : answering E f cmd = writeDmData E remote (some cmd) := by
    simp [answering, hl, hdm, hremote]
  unfold deepMemory at hlen ⊢
  dsimp only at hlen ⊢
  generalize hd₁ : (if E.platform.isRuntime d = true then E.platform.statusStop d else d) = d₁ at hlen ⊢
  by_cases hon : (E.platform.isRTWhenLoad d₁ && E.platform.isConnected d₁) = true
  · simp only [if_pos hon] at hlen ⊢
    obtain ⟨qs, rsp, hqs, htransfer⟩ := transfers_dm E remote hp hlen
    refine ⟨qs ++ lineParts E rsp, ?_, ?_, htransfer.whole, ?_⟩
    · rw [hparts, dmParts, hd₁, if_pos hon, hqs]
    · rw [hprogram]
      unfold writeDmData
      refine Emits.act (Emits.device ?_)
      dsimp only
      rw [hd₁]
      refine Emits.get fun s hs => ?_
      rw [hs, if_pos hon]
      -- the status is offered once, after what the transfer has sent
      exact Emits.device (htransfer.emits.bind (Emits.write fun _ => emits_pure () _))
    · intro bound payload hmem
      rcases List.mem_append.1 hmem with hmem | hmem
      · exact htransfer.loops bound payload hmem
      · simp [lineParts] at hmem
  · simp only [if_neg hon] at hlen ⊢
    refine ⟨lineParts E (lit "TRANSMITSSION FAILED AS OFFLINE\n"), ?_, ?_, ?_, ?_⟩
    · rw [hparts, dmParts, hd₁, if_neg hon]
    · rw [hprogram]
      unfold writeDmData
      refine Emits.act (Emits.device ?_)
      dsimp only
      rw [hd₁]
      refine Emits.get fun s hs => ?_
      rw [hs, if_neg hon]
      exact Emits.write fun _ => emits_pure _ _
    · simp [message, lineParts, MessagePart.content, Answer.wire, lit]
    · simp [lineParts]

/-! ## Queries -/

/-- The directory of a query, as the transfer reads it off the attachment. -/
theorem pathOf_line {line : JString} (hk : kindOf line = .ldm) (hs : semicolon ∉ line) :
    pathOf (some (line ++ lit ";")) = some (trim (line.drop (lit "*LDM?").length)) := by
  show (substring (removeSemicolons (line ++ lit ";")) (lit "*LDM?").length).map trim = _
  rw [removeSemicolons_line hs, substring, if_pos (length_of_ldm hk), Option.map_some]

/-- **A query is answered**: under the flags of its kind, a write step sends the answer in its wire form, and leaves the
instrument in the state after it. -/
theorem query_answered (E : Env κ δ) {f : Flags} {line : JString} (hf : f.mode = (kindOf line).mode)
    (hk : kindOf line ≠ .text) (hs : semicolon ∉ line) {d : δ}
    (hlen : ∀ payload, (query E line d).1 = .data payload → payload.length < 0x80000000) :
    ∃ ps, AnsweredBy E f (line ++ lit ";") d (query E line d) ps := by
  unfold query at hlen ⊢
  cases hkind : kindOf line with
  | adc =>
    rw [hkind] at hf
    exact ⟨_, adc_answered E (mode_large.1 hf) hk hs d⟩
  | ldm =>
    simp only [hkind, reduceCtorEq, if_false, decide_false] at hf hlen ⊢
    exact dm_answered E false hf (fun _ => pathOf_line hkind hs) hlen
  | rdm =>
    simp only [hkind, reduceCtorEq, if_false, decide_true] at hf hlen ⊢
    exact dm_answered E true hf (fun h => by cases h) hlen
  | text => exact absurd hkind hk

end OwonVds.Socket
