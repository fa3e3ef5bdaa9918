import OwonVds.Socket.Pending

/-!
# Commands and chunks

A client ends every command line with a carriage return and a line feed; the server does not look for them. It takes
what one read returns as one request, so the segments it analyses are those of the lines only when the chunks are cut
where the lines end, or so near that nothing but blanks and `;` has changed sides: part by part, the chunk and the line
carry as many other characters (`framing_iff`).

`analysed` is what the read steps of any run analyse: a chunk is translated into the replies to its segments, and what
a run has read from a client is a list of chunks with their translations (`run_analyses`).
-/

namespace OwonVds.Socket

open Java

/-- What one read of a connection returns: from 1 to 1024 bytes. -/
abbrev Chunk := { b : Bytes // 1 ≤ b.length ∧ b.length ≤ 1024 }

def crlf : Bytes := [0x0D, 0x0A]

/-- The segments that the read steps of these chunks pass to `analyse`, without whitespace. -/
def analysed (cs : Charset) (chunks : List Chunk) : List JString :=
  chunks.flatMap fun chunk => linesOf (commandOf cs chunk.1 chunk.1.length)

/-- The segments of the lines, without whitespace. -/
def segments (cs : Charset) (lines : List Bytes) : List JString :=
  lines.flatMap fun line => ((cs.decode line).splitOn semicolon).map clean

/-- What `trim` strips, as a byte. -/
def blankByte (a : UInt8) : Bool := a ≤ 0x20

/-- The number of bytes that are neither blank nor `;`. -/
def weight (b : Bytes) : Nat := Recut.load blankByte 0x3B b

variable (cs : Charset)

theorem blank_toUInt16 (a : UInt8) : blank a.toUInt16 = blankByte a := by
  unfold blank blankByte
  simp [UInt16.le_iff_toNat_le, UInt8.le_iff_toNat_le]

theorem ascii_of_blank {b : Bytes} (hb : ∀ a ∈ b, blankByte a = true) : ∀ a ∈ b, a < 128 := by
  intro a ha
  have := hb a ha
  simp only [blankByte, decide_eq_true_eq, UInt8.le_iff_toNat_le, UInt8.lt_iff_toNat_lt] at this ⊢
  exact Nat.lt_of_le_of_lt this (by decide)

theorem blank_map {b : Bytes} (hb : ∀ a ∈ b, blankByte a = true) : ∀ c ∈ b.map UInt8.toUInt16, blank c = true := by
  intro c hc
  obtain ⟨a, ha, rfl⟩ := List.mem_map.1 hc
  rw [blank_toUInt16]
  exact hb a ha

/-- Decoding, trimming and removing whitespace do not see the blanks at the ends of a piece. -/
theorem decode_neglects : Recut.Neglects blankByte 0x3B fun p => clean (cs.decode p) where
  sep_not_blank := by decide
  left b p hb := by
    rw [cs.decode_append_left (ascii_of_blank hb), clean_neglects.left _ _ (blank_map hb)]
  right b p hb := by
    rw [cs.decode_append_right _ (ascii_of_blank hb), clean_neglects.right _ _ (blank_map hb)]

/-- What is analysed of a chunk, from its bytes. -/
theorem split_decode (b : Bytes) : ((cs.decode b).splitOn semicolon).map clean =
    (b.splitOn 0x3B).map fun p => clean (cs.decode p) := by
  have h := cs.splitOn_decode (a := 0x3B) (by decide) b.length b rfl
  rw [show (0x3B : UInt8).toUInt16 = semicolon by decide] at h
  rw [h, List.map_map]
  rfl

theorem analysed_eq (chunks : List Chunk) :
    analysed cs chunks = Recut.pieces 0x3B (fun p => clean (cs.decode p)) (chunks.map Subtype.val) := by
  unfold analysed Recut.pieces
  rw [List.flatMap_map]
  refine List.flatMap_congr fun chunk _ => ?_
  rw [← split_decode, ← chunkLines_eq]
  unfold commandOf chunkLines
  rw [List.take_length]

theorem segments_eq (lines : List Bytes) :
    segments cs lines = Recut.pieces 0x3B (fun p => clean (cs.decode p)) (lines.map (· ++ crlf)) := by
  have hcrlf : ∀ a ∈ crlf, blankByte a = true := List.all_eq_true.1 (by decide)
  unfold segments Recut.pieces
  rw [List.flatMap_map]
  refine List.flatMap_congr fun line _ => ?_
  rw [split_decode, (decode_neglects cs).append_blank hcrlf]

theorem weight_ended (line : Bytes) : weight (line ++ crlf) = weight line := by
  unfold weight
  rw [Recut.load_append]
  rfl

/-- In the charset of one byte a character, what is analysed of a piece has its solid bytes. -/
theorem solid_of_clean {p q : Bytes} (h : clean (latin1.decode p) = clean (latin1.decode q)) :
    Recut.solid blankByte p = Recut.solid blankByte q := by
  have hmap : ∀ r : Bytes, Recut.solid blank (clean (latin1.decode r)) =
      (Recut.solid blankByte r).map UInt8.toUInt16 := by
    intro r
    rw [solid_clean]
    show ((r.map UInt8.toUInt16).filter fun a => !blank a) = _
    have hf : ((fun c => !blank c) ∘ UInt8.toUInt16) = fun a => !blankByte a := by
      funext a
      simp [blank_toUInt16]
    rw [List.filter_map, hf]
    rfl
  have := congrArg (Recut.solid blank) h
  rw [hmap p, hmap q] at this
  exact List.map_injective_iff.2 (fun a b hab => UInt8.toUInt16_inj.1 hab) this

/-- ASCII is decoded alike in every charset. -/
theorem decode_latin1 {b : Bytes} (hb : ∀ a ∈ b, a < 128) : cs.decode b = latin1.decode b := by
  rw [cs.decode_of_ascii hb, latin1.decode_of_ascii hb]

theorem analysed_ascii {chunks : List Chunk} (h : ∀ a ∈ (chunks.map Subtype.val).flatten, a < 128) :
    analysed cs chunks = analysed latin1 chunks := by
  refine List.flatMap_congr fun chunk hc => ?_
  unfold commandOf
  rw [List.take_length, decode_latin1 cs]
  intro a ha
  exact h a (List.mem_flatten.2 ⟨chunk.1, List.mem_map_of_mem hc, ha⟩)

theorem segments_ascii {lines : List Bytes} (h : ∀ line ∈ lines, ∀ a ∈ line, a < 128) :
    segments cs lines = segments latin1 lines := by
  refine List.flatMap_congr fun line hl => ?_
  rw [decode_latin1 cs (h line hl)]

/-! ## The read steps -/

variable {κ δ : Type} {E : Env κ δ}

theorem analysed_singleton (chunk : Chunk) : analysed cs [chunk] = linesOf (commandOf cs chunk.1 chunk.1.length) :=
  List.flatMap_singleton ..

/-- What a read step makes of a chunk: the replies to its segments, the flags that they mark, and the instrument that
they leave. -/
theorem chunkTranslation_analysed (E : Env κ δ) (s : Server δ) (chunk : Chunk) : chunkTranslation E s chunk.1 =
    ((lit ";").intercalate (replies E.factory (analysed E.charset [chunk]) s.dev).1,
      ((analysed E.charset [chunk]).map kindOf).foldl Flags.mark s.flags,
      (replies E.factory (analysed E.charset [chunk]) s.dev).2) := by
  rw [analysed_singleton, commandOf, List.take_length]
  exact translation_eq ..

/-- What is read from a client is a chunk, with the replies to its segments in the state of the step. -/
theorem readFrom_analysed {c : Nat} {l l' : Listen δ} {e : Event} (hw : l.server.Wf) (h : listenStep E l e = some l') :
    ∃ chunks : List Chunk, readFrom E c l e = chunks.map fun chunk =>
      (chunk.1, (lit ";").intercalate (replies E.factory (analysed E.charset [chunk]) l.server.dev).1) := by
  unfold readFrom
  split
  · rename_i c' b bs f
    split_ifs with hc
    · have hlen : (b :: bs).length ≤ 1024 := by
        obtain ⟨-, ⟨hr, -⟩ | ⟨hr, -⟩ | ⟨r, hr, hm, -⟩ | ⟨r, x, hr, hf, -⟩⟩ := listenStep_cases hw.buffer h
        · cases hr
        · cases hr
        · cases hr
          generalize l'.server = s' at hm
          cases hm with
          | chunk hk hne hl => exact hl
          | close hk hr => cases hr _ rfl
        · cases hr
          generalize l'.server = s' at hf
          cases hf with
          | close hk hr => cases hr _ rfl
      have ht := chunkTranslation_analysed E l.server ⟨b :: bs, Nat.succ_pos _, hlen⟩
      rw [chunkTranslation] at ht
      refine ⟨[⟨b :: bs, Nat.succ_pos _, hlen⟩], ?_⟩
      rw [List.map_singleton, commandOf, List.take_length, ht]
    · exact ⟨[], rfl⟩
  · exact ⟨[], rfl⟩

/-- **The read steps of a run analyse these segments**: what it has read from a client are chunks, each translated into
the replies to its segments in the state `d` of the instrument that it found, and to no others; the segments of what
was read are those that `analysed` gives for the chunks. -/
theorem run_analyses {d : δ} {es : List Event} {l : Listen δ} (h : Trans.run (listenStep E) (.fresh d) es = some l)
    (c : Nat) : ∃ reads : List (Chunk × δ), chunksOf c l.server.history = reads.map (fun (chunk, d) =>
        (chunk.1, (lit ";").intercalate (replies E.factory (analysed E.charset [chunk]) d).1)) ∧
      (chunksOf c l.server.history).flatMap (fun r => linesOf (commandOf E.charset r.1 r.1.length)) =
        analysed E.charset (reads.map Prod.fst) := by
  have hinv := Trans.run_inv (I := fun l : Listen δ => l.server.Wf ∧ ∃ reads : List (Chunk × δ),
      chunksOf c l.server.history = reads.map fun (chunk, d) =>
        (chunk.1, (lit ";").intercalate (replies E.factory (analysed E.charset [chunk]) d).1))
    (fun l e l' ⟨hw, reads, hreads⟩ hstep => by
      obtain ⟨chunks, hchunks⟩ := readFrom_analysed (c := c) hw hstep
      refine ⟨wf_step hw hstep, reads ++ chunks.map (·, l.server.dev), ?_⟩
      rw [chunksOf_step hw hstep, hreads, hchunks, List.map_append, List.map_map]
      rfl)
    h ⟨fresh_wf d, [], rfl⟩
  obtain ⟨-, reads, hreads⟩ := hinv
  refine ⟨reads, hreads, ?_⟩
  rw [hreads, List.flatMap_map, analysed, List.flatMap_map]

/-! ## Lines and chunks -/

/-- **Framing, exactly.** The lines, each with its line end, arrive in chunks. When the chunks carry as many solid bytes
as the lines, one by one, the segments analysed are those of the lines; and only then, when the lines are ASCII. -/
theorem framing_iff (lines : List Bytes) (chunks : List Chunk)
    (hcut : (chunks.map Subtype.val).flatten = lines.flatMap (· ++ crlf)) :
    (chunks.map (fun chunk => weight chunk.1) = lines.map weight → analysed cs chunks = segments cs lines) ∧
      ((∀ line ∈ lines, ∀ a ∈ line, a < 128) → analysed cs chunks = segments cs lines →
        chunks.map (fun chunk => weight chunk.1) = lines.map weight) := by
  have hparts : (chunks.map Subtype.val).flatten = (lines.map (· ++ crlf)).flatten := by
    rw [hcut, List.flatMap_def]
  have hw : (chunks.map fun chunk => weight chunk.1) = lines.map weight ↔
      (chunks.map Subtype.val).map (Recut.load blankByte 0x3B) =
        (lines.map (· ++ crlf)).map (Recut.load blankByte 0x3B) := by
    rw [List.map_map, List.map_map]
    have : lines.map weight = lines.map (Recut.load blankByte 0x3B ∘ (· ++ crlf)) :=
      List.map_congr_left fun line _ => (weight_ended line).symm
    rw [this]
    rfl
  constructor
  · intro h
    rw [analysed_eq, segments_eq]
    exact Recut.pieces_eq_of_load (decode_neglects cs) _ rfl hparts (hw.1 h)
  · intro hascii h
    have hstream : ∀ a ∈ (chunks.map Subtype.val).flatten, a < 128 := by
      intro a ha
      rw [hcut] at ha
      obtain ⟨line, hl, ha⟩ := List.mem_flatMap.1 ha
      rcases List.mem_append.1 ha with ha | ha
      · exact hascii line hl a ha
      · exact (List.all_iff_forall_prop.1 (by decide) : ∀ a ∈ crlf, a < 128) a ha
    rw [analysed_ascii cs hstream, segments_ascii cs hascii, analysed_eq, segments_eq] at h
    exact hw.2 (Recut.load_eq_of_pieces (by decide) (fun p q => solid_of_clean) hparts h)

def identify : Bytes := [0x2A, 0x49, 0x44, 0x4E, 0x3F]

/-- One command in two chunks, `*ID` and `N?` with the line end. -/
def cutCommand : List Chunk := [⟨[0x2A, 0x49, 0x44], by decide⟩, ⟨[0x4E, 0x3F, 0x0D, 0x0A], by decide⟩]

/-- A command cut in two is analysed as two. -/
theorem cutCommand_analysed : (cutCommand.map Subtype.val).flatten = [identify].flatMap (· ++ crlf) ∧
    analysed latin1 cutCommand ≠ segments latin1 [identify] := by
  constructor
  · decide
  · decide

theorem framing_iff_cut : (cutCommand.map (fun chunk => weight chunk.1) = [identify].map weight →
      analysed latin1 cutCommand = segments latin1 [identify]) ∧
    ((∀ line ∈ [identify], ∀ a ∈ line, a < 128) →
      analysed latin1 cutCommand = segments latin1 [identify] →
        cutCommand.map (fun chunk => weight chunk.1) = [identify].map weight) :=
  framing_iff latin1 [identify] cutCommand (by decide)

end OwonVds.Socket
