import OwonVds.Scpi.RoundTrip
import OwonVds.Socket.Short

/-!
# Frames read one after the other

The client reads the frame of a plain length exactly (`read_frame`). Of any other frame it takes the length from a part
of its four bytes, which is a smaller number: what it returns is shorter than the payload, and the rest of the frame
stays in the stream, where the next read begins (`read_cut_frame`).

`parseFrame` reads a frame by its offsets. The answers to large-data queries are parsed back, one frame a query, if
and only if the provider had data for each (`frames_parse_iff`): the answer to a query without data is `#` and four
zero bytes, with no line feed after them.
-/

namespace OwonVds.Scpi

open Java Socket Session Parts

variable {κ δ : Type} {E : Env κ δ}

/-! ## The client's read of a frame -/

/-- None of the four bytes of the length is `0x0A`, and the lowest is no other whitespace. -/
def Intact (n : Nat) : Prop := 0x0A ∉ putInt n ∧ UInt8.ofNat n ∉ ([0x09, 0x0B, 0x0C, 0x0D, 0x20] : Bytes)

theorem plainLength_iff {n : Nat} : PlainLength n ↔ Intact n := by
  have hlast : UInt8.ofNat n ∈ putInt n := by simp [putInt]
  unfold PlainLength Intact isWhitespace lf
  constructor
  · rintro ⟨h, hw⟩
    refine ⟨h, fun hmem => ?_⟩
    simp only [List.mem_cons, List.not_mem_nil, or_false] at hmem
    rcases hmem with hmem | hmem | hmem | hmem | hmem <;> rw [hmem] at hw <;> exact absurd hw (by decide)
  · rintro ⟨h, hw⟩
    refine ⟨h, ?_⟩
    have hne : UInt8.ofNat n ≠ 0x0A := fun he => h (he ▸ hlast)
    simp only [List.mem_cons, List.not_mem_nil, or_false, not_or] at hw
    simp [hw, hne]

/-- The frame of a plain length is read exactly. -/
theorem read_frame {payload : ByteArr} (h : PlainLength payload.1.length) (rest : Bytes) :
    read (frame payload.1 ++ rest) = (.ok (.bytes payload.1), rest) := by
  have hread : readOk (frame payload.1 ++ rest) = some (.bytes payload.1, rest) := exact_frame payload h rest
  unfold readOk at hread
  split at hread
  · rename_i v s hv
    cases hread
    exact hv
  · cases hread

/-- A read whose line says a length that the stream has. -/
theorem read_size {b s : Bytes} {m : Nat} (hb : lf ∉ b) (hh : header (b ++ [lf]) = .ok (.size m)) (hm : m ≤ s.length) :
    read (b ++ lf :: s) = (.ok (.bytes (s.take m)), s.drop m) := by
  unfold read
  rw [readline_line hb]
  simp only [hh, readexactly, if_pos hm]

/-- Of any other frame the read asks for fewer bytes than the payload has, and leaves a part of the frame. -/
theorem read_cut_frame {payload : ByteArr} (h : ¬ PlainLength payload.1.length) (rest : Bytes) :
    ∃ k < payload.1.length, header (readline (frame payload.1 ++ rest)).1 = .ok (.size k) ∧
      ∃ b unread, b.length = k ∧ b ≠ payload.1 ∧ unread ≠ [] ∧ unread <:+ frame payload.1 ∧
        read (frame payload.1 ++ rest) = (.ok (.bytes b), unread ++ rest) := by
  obtain ⟨buf, hlen⟩ := payload
  dsimp only at h ⊢
  obtain ⟨p, t, j, hs, hline, hj, hstrip, ht⟩ := frame_cut h
  have hh := header_size (n := buf.length) (by omega) hstrip (by omega)
  have hk := cut_lt (pos_of_not_plainLength h) hj
  generalize buf.length / 256 ^ (4 - j) = k at hh hk
  have hstream : frame buf ++ rest = (0x23 :: p) ++ lf :: (t ++ rest) := by
    rw [hs]
    simp
  have htake : (t.take k).length = k := by
    rw [List.length_take]
    omega
  refine ⟨k, hk, ?_, t.take k, t.drop k, htake, ?_, ?_, ?_, ?_⟩
  · rw [hstream, readline_line hline]
    exact hh
  · rintro rfl
    omega
  · intro hnil
    have := congrArg List.length hnil
    rw [List.length_drop, List.length_nil] at this
    omega
  · rw [hs]
    exact (List.drop_suffix k t).trans ((List.suffix_cons lf t).trans (List.suffix_append _ _))
  · rw [hstream, read_size hline hh (by rw [List.length_append]; omega), List.take_append_of_le_length (by omega),
      List.drop_append_of_le_length (by omega)]

/-- **Which transfer sizes the client corrupts**: those with a line feed among the bytes of the length, or with other
whitespace as the last one. -/
theorem read_frame_iff (payload : ByteArr) (rest : Bytes) :
    (read (frame payload.1 ++ rest) = (.ok (.bytes payload.1), rest) ↔ Intact payload.1.length) ∧
    (¬ Intact payload.1.length →
      ∃ k < payload.1.length, header (readline (frame payload.1 ++ rest)).1 = .ok (.size k) ∧
        ∃ b unread, b.length = k ∧ b ≠ payload.1 ∧ unread ≠ [] ∧ unread <:+ frame payload.1 ∧
          read (frame payload.1 ++ rest) = (.ok (.bytes b), unread ++ rest)) := by
  rw [← plainLength_iff]
  refine ⟨⟨fun hread => ?_, fun h => read_frame h rest⟩, fun h => read_cut_frame h rest⟩
  by_contra h
  obtain ⟨k, -, -, b, unread, -, hb, -, -, hcut⟩ := read_cut_frame h rest
  rw [hread] at hcut
  obtain ⟨hvalue, -⟩ := Prod.mk.inj hcut
  cases hvalue
  exact hb rfl

/-! ## Frames by their offsets -/

/-- `#`, four bytes of a length, a line feed, and as many bytes. -/
def parseFrame : Bytes → Option (Bytes × Bytes)
  | 0x23 :: a :: b :: c :: d :: 0x0A :: s => readexactly (fromBytes [a, b, c, d]) s
  | _ => none

/-- What the provider returns for the queries, one after the other. -/
def results (E : Env κ δ) : List JString → δ → List (Option ByteArr)
  | [], _ => []
  | cmd :: cmds, d => (E.factory.getData cmd d).1 :: results E cmds (E.factory.getData cmd d).2

/-- The payload that the answer to a query is to have. -/
def payloadOf : Option ByteArr → Bytes
  | some buf => buf.1
  | none => []

theorem message_eachParts (cmds : List JString) (d : δ) :
    message (eachParts E cmds d).1 = (results E cmds d).flatMap fun r => message (largeParts r) := by
  induction cmds generalizing d with
  | nil => rfl
  | cons cmd cmds ih =>
    rw [eachParts, results, List.flatMap_cons, message_append, ih]

theorem message_some (buf : ByteArr) : message (largeParts (some buf)) = frame buf.1 := message_frame buf.1 2048

/-- The answer without data has no line feed. -/
theorem message_none : message (largeParts none) = 0x23 :: putInt 0 := by
  simp [message, largeParts, MessagePart.content]

theorem parseFrame_frame (buf : ByteArr) (rest : Bytes) : parseFrame (frame buf.1 ++ rest) = some (buf.1, rest) := by
  obtain ⟨buf, hlen⟩ := buf
  have hn := fromBytes_take (n := buf.length) (by omega) 4 (Nat.le_refl _)
  show readexactly (fromBytes (putInt buf.length)) (buf ++ rest) = some (buf, rest)
  rw [List.take_of_length_le (Nat.le_of_eq (length_putInt _))] at hn
  rw [hn, readexactly]
  simp

/-- What begins an answer is no line feed. -/
theorem answers_head (rs : List (Option ByteArr)) :
    ((rs.flatMap fun r => message (largeParts r)).head?).getD 0x23 = 0x23 := by
  cases rs with
  | nil => rfl
  | cons r rs => cases r <;> rfl

/-- The answer without data is not parsed before another answer or the end. -/
theorem parseFrame_none (rs : List (Option ByteArr)) :
    parseFrame (message (largeParts none) ++ rs.flatMap fun r => message (largeParts r)) = none := by
  have hhead := answers_head rs
  rw [message_none]
  cases hrest : rs.flatMap fun r => message (largeParts r) with
  | nil => rfl
  | cons a rest =>
    rw [hrest] at hhead
    have ha : a = 0x23 := hhead
    subst ha
    rfl

/-- The answers are parsed back iff there was data for each query. -/
theorem session_parseFrame_iff (rs : List (Option ByteArr)) :
    session parseFrame rs.length (rs.flatMap fun r => message (largeParts r)) = some (rs.map payloadOf, []) ↔
      ∀ r ∈ rs, r ≠ none := by
  constructor
  · intro h
    induction rs with
    | nil => simp
    | cons r rs ih =>
      rw [List.length_cons, List.map_cons, List.flatMap_cons] at h
      obtain ⟨s, hr, hs⟩ := session_succ_eq.1 h
      cases r with
      | none =>
        rw [parseFrame_none] at hr
        cases hr
      | some buf =>
        rw [message_some, parseFrame_frame] at hr
        cases hr
        exact List.forall_mem_cons.2 ⟨by simp, ih hs⟩
  · intro h
    have hexact : ∀ r ∈ rs, Exact parseFrame (message (largeParts r)) (payloadOf r) := by
      intro r hr
      cases r with
      | none => exact absurd rfl (h none hr)
      | some buf =>
        intro rest
        rw [message_some]
        exact parseFrame_frame buf rest
    have hs := session_exact rs hexact []
    rwa [List.append_nil] at hs

theorem largeParts_within (r : Option ByteArr) : ∀ p ∈ largeParts r, p.Within 2048 := by
  cases r <;> simp [largeParts, headerParts, MessagePart.Within, length_putInt]

theorem eachParts_within (cmds : List JString) (d : δ) : ∀ p ∈ (eachParts E cmds d).1, p.Within 2048 := by
  induction cmds generalizing d with
  | nil => simp [eachParts]
  | cons cmd cmds ih =>
    intro p hp
    rcases List.mem_append.1 hp with hp | hp
    · exact largeParts_within _ p hp
    · exact ih _ p hp

/-- As many writes as the answers need at most. -/
def writesFor (E : Env κ δ) (cmds : List JString) (d : δ) : Nat := ((eachParts E cmds d).1.map MessagePart.writes).sum

/-- **When large-data answers are frames**: the answers to a list of queries, written with every write taking all its
bytes, are parsed by their offsets, and in one way only, into the payloads, if and only if the provider has data for
each query. -/
theorem frames_parse_iff (E : Env κ δ) (cmds : List JString) (d : δ) (taken : Bytes) (acts : List Act) {ks : List Nat}
    (hks : ∀ k ∈ ks, 2048 ≤ k) (hlen : writesFor E cmds d ≤ ks.length) :
    ∃ t w, writeEach E cmds ⟨⟨ks.map some, taken⟩, d, acts⟩ = .ok () t ∧ t.channel.taken = taken ++ w ∧
      ((∀ ps, session parseFrame ps.length w = some (ps, []) ↔ ps = (results E cmds d).map payloadOf) ↔
        ∀ r ∈ results E cmds d, r ≠ none) := by
  obtain ⟨rest, hs⟩ := send_enough (by decide) (eachParts_within cmds d) hks hlen
  obtain ⟨acts', ht⟩ := ((writeEach_emits cmds d) ks).ok hs taken acts
  refine ⟨_, _, ht, rfl, ?_⟩
  rw [message_eachParts, ← session_parseFrame_iff]
  constructor
  · intro h
    have := (h _).2 rfl
    rwa [List.length_map] at this
  · intro h ps
    constructor
    · intro hps
      exact session_unique rfl hps h
    · rintro rfl
      rwa [List.length_map]

/-- A query without data: the answer has five bytes, and no frame is parsed from it. -/
theorem no_data_no_frame :
    (∃ t, writeEach (bench true none []) [lit "*ADC?"] ⟨⟨[some 2048, some 2048], []⟩, (), []⟩ = .ok () t ∧
      t.channel.taken = [0x23, 0, 0, 0, 0]) ∧
    results (bench true none []) [lit "*ADC?"] () = [none] ∧
    session parseFrame 1 [0x23, 0, 0, 0, 0] ≠ some ([payloadOf none], []) :=
  ⟨⟨_, rfl, rfl⟩, rfl, by decide⟩

/-- An instrument that has data of its first channel only. -/
def oneChannel : Env Empty Unit :=
  let b := bench true none []
  { b with factory := { b.factory with getData := fun cmd d => (if cmd = lit "*ADC?CH1" then some tenBytes else none, d) } }

/-- Two captures of the first channel are parsed back; with a query of the second one between them they are not. -/
theorem frames_parse_iff_channels :
    (∃ t w, writeEach oneChannel [lit "*ADC?CH1", lit "*ADC?CH1"] ⟨⟨(List.replicate 28 2048).map some, []⟩, (), []⟩ =
        .ok () t ∧ t.channel.taken = [] ++ w ∧
      ∀ ps, session parseFrame ps.length w = some (ps, []) ↔ ps = [tenBytes.1, tenBytes.1]) ∧
    ∃ t w, writeEach oneChannel [lit "*ADC?CH1", lit "*ADC?CH2", lit "*ADC?CH1"]
        ⟨⟨(List.replicate 28 2048).map some, []⟩, (), []⟩ = .ok () t ∧ t.channel.taken = [] ++ w ∧
      ¬ ∀ ps, session parseFrame ps.length w = some (ps, []) ↔ ps = [tenBytes.1, [], tenBytes.1] := by
  have htwo : results oneChannel [lit "*ADC?CH1", lit "*ADC?CH1"] () = [some tenBytes, some tenBytes] := by decide
  have hthree : results oneChannel [lit "*ADC?CH1", lit "*ADC?CH2", lit "*ADC?CH1"] () =
      [some tenBytes, none, some tenBytes] := by decide
  have hks : ∀ k ∈ List.replicate 28 2048, 2048 ≤ k := by decide
  constructor
  · obtain ⟨t, w, ht, hw, hiff⟩ := frames_parse_iff oneChannel [lit "*ADC?CH1", lit "*ADC?CH1"] () [] []
      hks (by decide)
    rw [htwo] at hiff
    exact ⟨t, w, ht, hw, hiff.2 (by simp)⟩
  · obtain ⟨t, w, ht, hw, hiff⟩ := frames_parse_iff oneChannel [lit "*ADC?CH1", lit "*ADC?CH2", lit "*ADC?CH1"] () [] []
      hks (by decide)
    rw [hthree] at hiff
    refine ⟨t, w, ht, hw, fun h => ?_⟩
    exact hiff.1 h none (by simp) rfl

end OwonVds.Scpi
