import OwonVds.Socket.Pending

/-!
# One set of flags for every client

The read step of a request raises the transmit flags of the server, and the next write step answers by them, whichever
client it is for. `Isolated` says of a run that every answer has the mode of the answered client's own request.

That depends on the order of the requests and the answers only. A `Desk` keeps the books on them: which kind each client
asked for last, whether an `*ADC?` was asked for and none answered since, and which deep-memory request was, and none
answered since. As long as every answer is right the flags are what the desk says (`Flags.Agrees`), so a run is isolated
if and only if every client was answered when the desk had its kind due (`Undisturbed`).
-/

namespace OwonVds.Socket

open Java

variable {κ δ : Type} {E : Env κ δ}

/-- The kind of the request in a chunk. -/
def requestKind (cs : Charset) (chunk : Bytes) : Kind := kindOf (clean (cs.decode chunk))

/-- The way a request of a kind is to be answered. -/
def Kind.mode : Kind → Mode
  | .adc => .large
  | .ldm => .local
  | .rdm => .remote
  | .text => .text

theorem mode_inj {k k' : Kind} (h : k.mode = k'.mode) : k = k' := by
  cases k <;> cases k' <;> first | rfl | cases h

/-- The kind of the request a client sent last. -/
def lastKind (cs : Charset) (h : List Obs) (c : Nat) : Kind :=
  ((chunksOf c h).getLast?.map fun p => requestKind cs p.1).getD .text

/-- Every answer of the history, its client and its mode are in the relation `Q` to what came before it. -/
def EachAnswer (Q : List Obs → Nat → Mode → Prop) : List Obs → Prop :=
  Trans.EachAfter fun pre o => ∀ c cmd mode acts sent, o = .answer c cmd mode acts sent → Q pre c mode

theorem eachAnswer_chunk {Q : List Obs → Nat → Mode → Prop} {h : List Obs} {c : Nat} {buf : Bytes} {reply : JString} :
    EachAnswer Q (h ++ [.chunk c buf reply]) ↔ EachAnswer Q h := by
  refine Trans.eachAfter_concat.trans (and_iff_left ?_)
  intro _ _ _ _ _ heq
  cases heq

theorem eachAnswer_answer {Q : List Obs → Nat → Mode → Prop} {h : List Obs} {c : Nat} {cmd : JString} {mode : Mode}
    {acts : List Act} {sent : Bytes} :
    EachAnswer Q (h ++ [.answer c cmd mode acts sent]) ↔ EachAnswer Q h ∧ Q h c mode := by
  refine Trans.eachAfter_concat.trans (and_congr_right' ⟨fun h => h _ _ _ _ _ rfl, ?_⟩)
  rintro hq _ _ _ _ _ heq
  cases heq
  exact hq

/-- **Isolation**: every answer has the mode of the client's own request. -/
def Isolated (cs : Charset) : List Obs → Prop := EachAnswer fun pre c mode => mode = (lastKind cs pre c).mode

/-! ## The desk -/

/-- The books on the requests and the answers. -/
structure Desk where
  /-- An `*ADC?` was asked for, and none answered since. -/
  adc : Bool
  /-- The deep-memory request asked for last, if none was answered since. -/
  dm : Option Kind
  deriving DecidableEq, Repr

/-- A request of a kind comes in. -/
def Desk.request (k : Kind) (w : Desk) : Desk :=
  match k with
  | .adc => { w with adc := true }
  | .ldm | .rdm => { w with dm := some k }
  | .text => w

/-- A request of a kind is answered. -/
def Desk.settle (k : Kind) (w : Desk) : Desk :=
  match k with
  | .adc => { w with adc := false }
  | .ldm | .rdm => { w with dm := none }
  | .text => w

/-- The kind that is due: `*ADC?` first, then deep memory. -/
def Desk.due (w : Desk) : Kind := if w.adc then .adc else w.dm.getD .text

/-- The desk after a history; the list is the history backwards. -/
def deskBack (cs : Charset) : List Obs → Desk
  | [] => ⟨false, none⟩
  | .chunk _ buf _ :: h => (deskBack cs h).request (requestKind cs buf)
  | .answer c _ _ _ _ :: h => (deskBack cs h).settle (lastKind cs h.reverse c)

def desk (cs : Charset) (h : List Obs) : Desk := deskBack cs h.reverse

theorem desk_chunk (cs : Charset) (h : List Obs) (c : Nat) (buf : Bytes) (reply : JString) :
    desk cs (h ++ [.chunk c buf reply]) = (desk cs h).request (requestKind cs buf) := by
  simp [desk, deskBack]

theorem desk_answer (cs : Charset) (h : List Obs) (c : Nat) (cmd : JString) (mode : Mode) (acts : List Act)
    (sent : Bytes) : desk cs (h ++ [.answer c cmd mode acts sent]) = (desk cs h).settle (lastKind cs h c) := by
  simp [desk, deskBack]

/-- **Undisturbed**: every client is answered when its own kind is due. -/
def Undisturbed (cs : Charset) : List Obs → Prop := EachAnswer fun pre c _ => (desk cs pre).due = lastKind cs pre c

/-! ## The flags and the desk -/

/-- The flags are what the desk says. -/
structure Flags.Agrees (f : Flags) (w : Desk) : Prop where
  adc : f.onlargeTransmit = w.adc
  dm : f.onDmTransmit = w.dm.isSome
  remote : f.isRemoteTransmit = decide (w.dm = some .rdm)
  kinds : ∀ k, w.dm = some k → k = .ldm ∨ k = .rdm

theorem clean_agrees : Flags.clean.Agrees ⟨false, none⟩ := ⟨rfl, rfl, rfl, by simp⟩

/-- The mode of the next answer is that of the kind due. -/
theorem Flags.Agrees.mode {f : Flags} {w : Desk} (h : f.Agrees w) : f.mode = w.due.mode := by
  unfold Flags.mode Desk.due
  rw [h.adc, h.dm, h.remote]
  cases w.adc with
  | true => rfl
  | false =>
    cases hd : w.dm with
    | none => rfl
    | some k =>
      obtain rfl | rfl := h.kinds k hd
      · rfl
      · rfl

theorem Flags.Agrees.mark {f : Flags} {w : Desk} (h : f.Agrees w) (k : Kind) : (f.mark k).Agrees (w.request k) := by
  cases k with
  | adc => exact ⟨rfl, h.dm, h.remote, h.kinds⟩
  | ldm => exact ⟨h.adc, rfl, rfl, fun k hk => by cases hk; exact .inl rfl⟩
  | rdm => exact ⟨h.adc, rfl, rfl, fun k hk => by cases hk; exact .inr rfl⟩
  | text => exact h

/-- An answer to the kind due. -/
theorem Flags.Agrees.reset {f : Flags} {w : Desk} (h : f.Agrees w) : f.reset.Agrees (w.settle w.due) := by
  obtain ⟨large, dm, remote⟩ := f
  obtain ⟨adc, kind⟩ := w
  obtain ⟨ha, hd, hr, hk⟩ := h
  dsimp only at ha hd hr hk
  subst ha hd hr
  cases large with
  | true => exact ⟨rfl, rfl, rfl, hk⟩
  | false =>
    cases kind with
    | none => exact ⟨rfl, rfl, rfl, hk⟩
    | some k =>
      obtain rfl | rfl := hk k rfl
      · exact ⟨rfl, rfl, rfl, fun k h => by cases h⟩
      · exact ⟨rfl, rfl, rfl, fun k h => by cases h⟩

/-! ## Runs of single requests -/

/-- A chunk that a step reads has no `;`. -/
def SingleSegment (cs : Charset) : Event → Prop
  | .ready (.readable _ (.bytes chunk) _) => semicolon ∉ cs.decode chunk
  | _ => True

/-- The flags after a chunk without `;`. -/
theorem chunk_flags {s : Server δ} {c : Nat} {chunk : Bytes} (h : semicolon ∉ E.charset.decode chunk) :
    (s.afterChunk E c chunk).flags = s.flags.mark (requestKind E.charset chunk) := by
  simp only [Server.afterChunk, chunkTranslation, translation_eq, ← chunkLines.eq_1, chunkLines_single h, requestKind]
  rfl

/-- While the run is isolated the flags agree with the desk, and so far it has been undisturbed; and conversely. -/
structure Booked (cs : Charset) (s : Server δ) : Prop where
  iff : Isolated cs s.history ↔ Undisturbed cs s.history
  agrees : Isolated cs s.history → s.flags.Agrees (desk cs s.history)

theorem Moves.booked {s s' : Server δ} {r : Ready} (h : Moves E s r s') (hseg : SingleSegment E.charset (.ready r))
    (hs : Booked E.charset s) : Booked E.charset s' := by
  cases h with
  | accept hk => exact ⟨hs.iff, hs.agrees⟩
  | @chunk c chunk a f hk hne hl =>
    have hh : (s.afterChunk E c chunk).history = s.history ++ [.chunk c chunk (chunkTranslation E s chunk).1] := rfl
    constructor
    · rw [hh]
      exact eachAnswer_chunk.trans (hs.iff.trans eachAnswer_chunk.symm)
    · intro h
      rw [hh] at h
      rw [chunk_flags hseg, hh, desk_chunk]
      exact (hs.agrees (eachAnswer_chunk.1 h)).mark _
  | close hk hr => exact ⟨hs.iff, hs.agrees⟩
  | @answer c schedule a hk d sent hw =>
    have hh : (s.afterAnswer c a d sent).history =
      s.history ++ [.answer c (a.getD []) s.flags.mode (actsOf s.flags a) sent] := rfl
    constructor
    · rw [hh]
      refine eachAnswer_answer.trans (Iff.trans ?_ eachAnswer_answer.symm)
      rw [show EachAnswer _ s.history ↔ EachAnswer _ s.history from hs.iff]
      refine and_congr_right fun h => ?_
      rw [(hs.agrees (hs.iff.2 h)).mode]
      exact ⟨mode_inj, congrArg Kind.mode⟩
    · intro h
      rw [hh] at h
      obtain ⟨h1, h2⟩ := eachAnswer_answer.1 h
      have ha := hs.agrees h1
      rw [ha.mode] at h2
      rw [hh, desk_answer, ← mode_inj h2]
      exact ha.reset

theorem Fails.booked {s s' : Server δ} {r : Ready} {e : Exn} {cs : Charset} (h : Fails E s r e s')
    (hs : Booked cs s) : Booked cs s' := by
  cases h with
  | accept hr => exact hs
  | close hk hr => exact ⟨hs.iff, hs.agrees⟩
  | write hk d hw => exact ⟨hs.iff, hs.agrees⟩

theorem booked_step {l l' : Listen δ} {e : Event} (hl : l.server.Wf ∧ Booked E.charset l.server)
    (hseg : SingleSegment E.charset e) (h : listenStep E l e = some l') :
    l'.server.Wf ∧ Booked E.charset l'.server := by
  refine ⟨wf_step hl.1 h, ?_⟩
  obtain ⟨-, ⟨-, rfl⟩ | ⟨-, rfl⟩ | ⟨r, rfl, hm, -⟩ | ⟨r, x, -, hf, -⟩⟩ := listenStep_cases hl.1.buffer h
  · exact ⟨hl.2.iff, hl.2.agrees⟩
  · split
    · exact ⟨hl.2.iff, hl.2.agrees⟩
    · exact hl.2
  · exact hm.booked hseg hl.2
  · exact hf.booked hl.2

/-- **Isolation, exactly**: a run of single requests answers every client by its own request if and only if it answers
every client when its own kind is due. -/
theorem isolated_iff_undisturbed (E : Env κ δ) (d : δ) (es : List Event) (l : Listen δ)
    (hseg : ∀ e ∈ es, SingleSegment E.charset e) (h : Trans.run (listenStep E) (.fresh d) es = some l) :
    Isolated E.charset l.server.history ↔ Undisturbed E.charset l.server.history := by
  have hstart : (Server.fresh d).Wf ∧ Booked E.charset (Server.fresh d) := by
    refine ⟨fresh_wf d, ⟨iff_of_true ?_ ?_, fun _ => clean_agrees⟩⟩
    · exact Trans.eachAfter_nil _
    · exact Trans.eachAfter_nil _
  have := Trans.run_inv_along (I := fun l : Listen δ => l.server.Wf ∧ Booked E.charset l.server)
    (P := fun _ e => SingleSegment E.charset e) (fun _ _ _ hl hseg h => booked_step hl hseg h)
    (Trans.along_of_forall (.fresh d) hseg) h hstart
  exact this.2.iff

/-- Client 1 asks for large data, client 2 for text; client 2 is answered first. -/
def overtaking : List Event :=
  [.ready (.acceptable (.client 1 false)), .ready (.acceptable (.client 2 false)),
    .ready (.readable 1 (.bytes [0x2A, 0x41, 0x44, 0x43, 0x3F]) false), .ready (.readable 2 (.bytes [0x41]) false),
    .ready (.writable 2 [some 1, some 4])]

theorem overtaking_single : ∀ e ∈ overtaking, SingleSegment latin1 e := by
  intro e he
  simp only [overtaking, List.mem_cons, List.not_mem_nil, or_false] at he
  rcases he with rfl | rfl | rfl | rfl | rfl
  · trivial
  · trivial
  · show semicolon ∉ _
    decide
  · show semicolon ∉ _
    decide
  · trivial

/-- The run of the overtaking: the text reply goes out as large data. -/
theorem overtaking_run : ∃ l, Trans.run (listenStep (bench true none [])) (.fresh ()) overtaking = some l ∧
    l.server.history = [.chunk 1 [0x2A, 0x41, 0x44, 0x43, 0x3F] (lit "*ADC?;"),
      .chunk 2 [0x41] (lit "CAN NOT ANALYSE THE ORDER"), .answer 2 (lit "CAN NOT ANALYSE THE ORDER") .large
        [.writeLargeData (lit "CAN NOT ANALYSE THE ORDER")] [0x23, 0, 0, 0, 0]] :=
  Option.map_eq_some_iff.1 (by decide +kernel : (Trans.run (listenStep (bench true none [])) (.fresh ())
    overtaking).map (fun l => l.server.history) = some _)

/-- A request of another client can change the mode of an answer. -/
theorem overtaking_not_isolated : ∃ l, Trans.run (listenStep (bench true none [])) (.fresh ()) overtaking = some l ∧
    (∀ e ∈ overtaking, SingleSegment latin1 e) ∧ ¬ Isolated latin1 l.server.history := by
  obtain ⟨l, h, hh⟩ := overtaking_run
  refine ⟨l, h, overtaking_single, fun hi => ?_⟩
  rw [hh] at hi
  have := hi [_, _] _ [] rfl 2 _ _ _ _ rfl
  exact absurd this (by decide)

theorem isolated_iff_undisturbed_overtaking : ∃ l,
    Trans.run (listenStep (bench true none [])) (.fresh ()) overtaking = some l ∧
      (Isolated latin1 l.server.history ↔ Undisturbed latin1 l.server.history) := by
  obtain ⟨l, h, -⟩ := overtaking_run
  exact ⟨l, h, isolated_iff_undisturbed (bench true none []) () overtaking l overtaking_single h⟩

end OwonVds.Socket
