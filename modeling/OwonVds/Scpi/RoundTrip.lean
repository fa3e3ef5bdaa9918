import Mathlib.Tactic.IntervalCases
import OwonVds.Lib.Session
import OwonVds.Scpi.Connection
import OwonVds.Socket.Transmit

/-!
# Answers written and read

The server writes an answer as text and a line feed, or as a frame: `#`, the length of the payload in four bytes, a line
feed, the payload. The client takes the line of an answer up to its first line feed and strips whitespace at its end,
also when the line is the header of a frame. So it loses the bytes of the length from a line feed among them on, and the
last ones when they are whitespace; what is left is a shorter number (`fromBytes_take`), and the payload that is read is
too short.

A session of answers is read back if and only if every length is `Plain` (`session_plain_iff`).
-/

namespace OwonVds.Scpi

open Java Socket Session

variable {κ δ : Type} {E : Env κ δ}

/-! ## What the server writes -/

/-- A text answer: ASCII, not empty, without a line feed, not beginning with `#`, not ending in whitespace. -/
structure TextReply where
  reply : JString
  ascii : ∀ c ∈ reply, c < 128
  nonempty : reply ≠ []
  noLineFeed : 0x0A ∉ reply
  noHash : reply.head? ≠ some 0x23
  noTrailingSpace : ∀ c, reply.getLast? = some c → isSpace c = false

/-- An answer of the server, without its wire form. -/
inductive Response
  | text (r : TextReply)
  | frame (payload : ByteArr)

/-- The characters of an ASCII string. -/
def chars (s : JString) : Str := s.map fun c => Char.ofNat c.toNat

/-- What the client is to read. -/
def Response.value : Response → Value
  | .text r => .text (chars r.reply)
  | .frame payload => .bytes payload.1

/-- The wire form of an answer. -/
def Response.wire : Response → Bytes
  | .text r => r.reply.map UInt16.toUInt8 ++ [lf]
  | .frame payload => Socket.frame payload.1

/-- The server puts an answer on the channel: a text in one write that takes all of it; a frame by `writeLargeData` or
by `remoteDmTransmit`, where the three short writes of the header take all their bytes. -/
inductive Sent (E : Env κ δ) : Response → Bytes → Prop
  | text {r : TextReply} {s t : Sending δ} {n k : Nat} {rest : List (Option Nat)} {w : Bytes}
      (h : write (E.charset.encode (r.reply ++ lit "\n")) s = .ok n t) (hs : s.channel.schedule = some k :: rest)
      (hk : (E.charset.encode (r.reply ++ lit "\n")).length ≤ k) (hw : t.channel.taken = s.channel.taken ++ w) :
      Sent E (.text r) w
  | large {cmd : JString} {s t : Sending δ} {payload : ByteArr} {w : Bytes} (h : writeLargeData E cmd s = .ok () t)
      (hd : (E.factory.getData cmd s.dev).1 = some payload) (hh : HeaderWhole s.channel.schedule)
      (hw : t.channel.taken = s.channel.taken ++ w) : Sent E (.frame payload) w
  | remote {s t : Sending δ} {payload : ByteArr} {w : Bytes} (h : remoteDmTransmit E s = .ok [] t)
      (hd : E.platform.tempContent (E.platform.copyToTemp s.dev).2 = payload.1) (hh : HeaderWhole s.channel.schedule)
      (hw : t.channel.taken = s.channel.taken ++ w) : Sent E (.frame payload) w

theorem encode_reply (cs : Charset) (r : TextReply) : cs.encode (r.reply ++ lit "\n") = (Response.text r).wire := by
  have hl : ∀ c ∈ lit "\n", c < 128 := List.all_iff_forall_prop.1 (by decide)
  rw [cs.encode_ascii, List.map_append]
  · rfl
  · intro c hc
    rcases List.mem_append.1 hc with hc | hc
    · exact r.ascii c hc
    · exact hl c hc

/-- **What was sent is the wire form.** -/
theorem Sent.wire {r : Response} {w : Bytes} (h : Sent E r w) : w = r.wire := by
  cases h with
  | text h hs hk hw =>
    obtain ⟨-, ht, -⟩ := write_whole h hs hk
    rw [hw, encode_reply] at ht
    exact List.append_cancel_left ht
  | large h hd hh hw =>
    have ht := writeLargeData_frame h hd hh
    rw [hw] at ht
    exact List.append_cancel_left ht
  | remote h hd hh hw =>
    rename_i payload
    have ht := remoteDmTransmit_frame h (by rw [hd]; exact payload.2) hh
    rw [hw, hd] at ht
    exact List.append_cancel_left ht

/-! ## Text -/

theorem encode_chars {s : JString} (h : ∀ c ∈ s, c < 128) : encode (chars s) = s.map UInt16.toUInt8 := by
  have hlt : ∀ c ∈ s, c.toNat < 128 := fun c hc => UInt16.lt_iff_toNat_lt.1 (h c hc)
  have hnat : ∀ n, n < 128 → (Char.ofNat n).toNat = n := by decide
  rw [encode_ascii]
  · unfold chars
    rw [List.map_map]
    refine List.map_congr_left fun c hc => ?_
    show UInt8.ofNat (Char.ofNat c.toNat).toNat = _
    rw [hnat _ (hlt c hc)]
    rfl
  · intro c hc
    obtain ⟨a, ha, rfl⟩ := List.mem_map.1 hc
    rw [hnat _ (hlt a ha)]
    exact hlt a ha

/-- A text answer is read back. -/
theorem exact_text (r : TextReply) : Exact readOk (Response.text r).wire (Response.text r).value := by
  intro rest
  have henc := encode_chars r.ascii
  have hbyte : ∀ c ∈ r.reply, ∀ a : UInt8, c.toUInt8 = a → c = a.toUInt16 := by
    intro c hc a h
    have hlt : c.toNat < 128 := UInt16.lt_iff_toNat_lt.1 (r.ascii c hc)
    rw [← h, ← UInt16.toNat_inj]
    simp only [UInt8.toNat_toUInt16, UInt16.toNat_toUInt8]
    exact (Nat.mod_eq_of_lt (by omega)).symm
  have hread := @read_text (chars r.reply) rest ?_ ?_ ?_ ?_
  · unfold readOk
    rw [Response.wire, ← henc, List.append_assoc, List.singleton_append, hread]
    rfl
  · rw [henc]
    intro h
    obtain ⟨c, hc, hclf⟩ := List.mem_map.1 h
    have := hbyte c hc lf hclf
    subst this
    exact r.noLineFeed hc
  · unfold chars
    simpa using r.nonempty
  · rw [henc, List.head?_map]
    intro h
    obtain ⟨c, hc, hch⟩ := Option.map_eq_some_iff.1 h
    have := hbyte c (List.mem_of_mem_head? hc) 35 hch
    subst this
    exact r.noHash hc
  · intro a ha
    rw [henc, List.getLast?_map] at ha
    obtain ⟨c, hc, rfl⟩ := Option.map_eq_some_iff.1 ha
    have hno := r.noTrailingSpace c hc
    have hmem := List.mem_of_getLast? hc
    by_contra hw
    rw [Bool.not_eq_false] at hw
    simp only [isWhitespace, Bool.or_eq_true, beq_iff_eq] at hw
    rcases hw with ((((hw | hw) | hw) | hw) | hw) | hw
    all_goals
      have := hbyte c hmem _ hw
      subst this
      exact absurd hno (by decide)

/-! ## Frames -/

/-- A length that the header line carries whole: none of its four bytes is a line feed, and the last is not
whitespace. -/
def PlainLength (n : Nat) : Prop := lf ∉ putInt n ∧ isWhitespace (UInt8.ofNat n) = false

/-- An answer that is read back. -/
def Response.Plain : Response → Prop
  | .text _ => True
  | .frame payload => PlainLength payload.1.length

/-- The first bytes of a length are the length without its last digits, to the base 256. -/
theorem fromBytes_take {n : Nat} (hn : n < 0x100000000) :
    ∀ j ≤ 4, fromBytes ((putInt n).take j) = n / 256 ^ (4 - j) := by
  intro j hj
  unfold fromBytes putInt
  interval_cases j
  all_goals
    simp
    try omega

/-- The header of a frame, when the line has the first bytes of the length. -/
theorem header_size {n j : Nat} (hn : n < 0x100000000) {p : Bytes} (hp : rstrip p = (putInt n).take j) (hj : j ≤ 4) :
    header (0x23 :: p ++ [lf]) = .ok (.size (n / 256 ^ (4 - j))) := by
  unfold header
  rw [rstrip_concat (by decide), rstrip_cons (by decide), hp]
  simp only [if_true]
  rw [List.take_take, Nat.min_eq_right hj, fromBytes_take hn j hj]

/-- A line whose length is too small does not give the payload. -/
theorem readOk_short {b s : Bytes} {m : Nat} (hb : lf ∉ b) (hh : header (b ++ [lf]) = .ok (.size m)) {v : Value}
    {s' : Bytes} (h : readOk (b ++ lf :: s) = some (v, s')) : ∃ payload, v = .bytes payload ∧ payload.length = m := by
  unfold readOk read at h
  rw [readline_line hb] at h
  simp only [hh] at h
  unfold readexactly at h
  by_cases hm : m ≤ s.length
  · simp only [if_pos hm, Option.some.injEq, Prod.mk.injEq] at h
    exact ⟨s.take m, h.1.symm, by simp [hm]⟩
  · simp only [if_neg hm] at h
    cases h

/-- A frame with a plain length is read back. -/
theorem exact_frame (payload : ByteArr) (h : PlainLength payload.1.length) :
    Exact readOk (Response.frame payload).wire (Response.frame payload).value := by
  intro rest
  obtain ⟨buf, hlen⟩ := payload
  obtain ⟨hno, hlast⟩ := h
  dsimp only at hno hlast
  have hstrip : rstrip (putInt buf.length) = (putInt buf.length).take 4 := by
    refine rstrip_self fun a ha => ?_
    cases ha
    exact hlast
  have hh := header_size (by omega) hstrip (le_refl 4)
  have hline : lf ∉ (0x23 :: putInt buf.length : Bytes) := by
    simpa using ⟨by decide, hno⟩
  show readOk (0x23 :: (putInt buf.length ++ 0x0A :: buf) ++ rest) = _
  have hs : (0x23 :: (putInt buf.length ++ 0x0A :: buf) ++ rest : Bytes) =
      (0x23 :: putInt buf.length) ++ lf :: (buf ++ rest) := by
    simp [lf]
  rw [hs]
  unfold readOk read
  rw [readline_line hline]
  simp only [hh]
  unfold readexactly
  simp [Response.value]

/-- The line of a frame with another length ends at a byte of the length, and what is not stripped of it is the first
`j` bytes; the payload, at least, is not in the line. -/
theorem frame_cut {buf : Bytes} (h : ¬ PlainLength buf.length) :
    ∃ p t j, frame buf = (0x23 :: p) ++ lf :: t ∧ lf ∉ (0x23 :: p : Bytes) ∧ j ≤ 3 ∧
      rstrip p = (putInt buf.length).take j ∧ buf.length ≤ t.length := by
  by_cases hmem : lf ∈ putInt buf.length
  · obtain ⟨p, q, hpq, hp⟩ := List.eq_append_cons_of_mem hmem
    have hl := congrArg List.length hpq
    rw [length_putInt, List.length_append, List.length_cons] at hl
    refine ⟨p, q ++ 0x0A :: buf, (rstrip p).length, ?_, by simpa using ⟨by decide, hp⟩, ?_, ?_, ?_⟩
    · rw [frame, hpq]
      simp
    · have := (rstrip_isPrefix p).length_le
      omega
    · have hpre : rstrip p <+: putInt buf.length := by
        rw [hpq]
        exact (rstrip_isPrefix p).trans (List.prefix_append _ _)
      exact List.prefix_iff_eq_take.1 hpre
    · simp only [List.length_append, List.length_cons]
      omega
  · have hws : isWhitespace (UInt8.ofNat buf.length) = true := by
      by_contra hws
      exact h ⟨hmem, by simpa using hws⟩
    have hput : putInt buf.length = (putInt buf.length).take 3 ++ [UInt8.ofNat buf.length] := rfl
    refine ⟨putInt buf.length, buf, (rstrip (putInt buf.length)).length, rfl, by simpa using ⟨by decide, hmem⟩, ?_, ?_,
      Nat.le_refl _⟩
    · have hle := (rstrip_isPrefix ((putInt buf.length).take 3)).length_le
      rw [hput, rstrip_concat hws]
      exact hle.trans (List.length_take_le _ _)
    · exact List.prefix_iff_eq_take.1 (rstrip_isPrefix _)

theorem pos_of_not_plainLength {n : Nat} (h : ¬ PlainLength n) : 0 < n := by
  apply Nat.pos_of_ne_zero
  rintro rfl
  exact h (by constructor <;> decide)

/-- The number in the first bytes of a length is smaller. -/
theorem cut_lt {n j : Nat} (hn : 0 < n) (hj : j ≤ 3) : n / 256 ^ (4 - j) < n :=
  Nat.div_lt_self hn (Nat.one_lt_pow (by omega) (by omega))

/-- A frame with another length is not: a part of the length is lost. -/
theorem spoils_frame (payload : ByteArr) (h : ¬ PlainLength payload.1.length) :
    Spoils readOk (Response.frame payload).wire (Response.frame payload).value := by
  obtain ⟨buf, hlen⟩ := payload
  dsimp only at h
  obtain ⟨p, t, j, hs, hline, hj, hstrip, -⟩ := frame_cut h
  intro rest v s' hread hv
  subst hv
  change readOk (frame buf ++ rest) = some (Value.bytes buf, s') at hread
  rw [hs, List.append_assoc, List.cons_append] at hread
  obtain ⟨b, hb, hbl⟩ := readOk_short hline (header_size (by omega) hstrip (by omega)) hread
  cases hb
  have := cut_lt (pos_of_not_plainLength h) hj
  omega

/-! ## Sessions -/

/-- **A session, exactly**: as many reads as answers return the answers, in order, and leave the stream at the end of
the last, if and only if every answer is plain. -/
theorem session_plain_iff (E : Env κ δ) (rs : List Response) (ws : List Bytes) (hsent : List.Forall₂ (Sent E) rs ws)
    (rest : Bytes) : session readOk rs.length (ws.flatten ++ rest) = some (rs.map Response.value, rest) ↔
      ∀ r ∈ rs, r.Plain := by
  have hws : ws.flatten = rs.flatMap Response.wire := by
    induction hsent with
    | nil => rfl
    | cons h _ ih => rw [List.flatten_cons, List.flatMap_cons, h.wire, ih]
  rw [hws]
  refine session_iff rs ?_ ?_ rest
  · intro r _ hr
    cases r with
    | text r => exact exact_text r
    | frame payload => exact exact_frame payload hr
  · intro r _ hr
    cases r with
    | text r => exact absurd trivial hr
    | frame payload => exact spoils_frame payload hr

/-- A payload of ten bytes: the last byte of its length is a line feed. -/
def tenBytes : ByteArr := ⟨List.replicate 10 7, by decide⟩

theorem tenBytes_sent : Sent (bench true (some tenBytes) []) (.frame tenBytes) (Socket.frame tenBytes.1) := by
  have h : writeLargeData (bench true (some tenBytes) []) (lit "*ADC?")
      ⟨⟨[some 1, some 4, some 1, some 10], []⟩, (), []⟩ =
        .ok () ⟨⟨[], Socket.frame tenBytes.1⟩, (), [.writeLargeData (lit "*ADC?")]⟩ := rfl
  exact .large h rfl ⟨1, 4, 1, [some 10], rfl, by decide, by decide, by decide⟩ rfl

/-- A capture of ten bytes is not read back. -/
theorem tenBytes_lost : List.Forall₂ (Sent (bench true (some tenBytes) [])) [.frame tenBytes] [Socket.frame tenBytes.1] ∧
    session readOk 1 ([Socket.frame tenBytes.1].flatten ++ []) ≠ some ([Response.value (.frame tenBytes)], []) := by
  constructor
  · exact .cons tenBytes_sent .nil
  · intro h
    have : (session readOk 1 ([Socket.frame tenBytes.1].flatten ++ [])).map Prod.fst = some [.bytes []] := rfl
    rw [h] at this
    cases this

/-! ## A session that is read back -/

def runReply : TextReply where
  reply := lit "RUN"
  ascii := List.all_iff_forall_prop.1 (by decide)
  nonempty := by decide
  noLineFeed := by decide
  noHash := by decide
  noTrailingSpace := fun c hc => by cases hc; decide

/-- Data with a line feed, and a file with `#` in it. -/
def oneData : ByteArr := ⟨[0x0A, 7], by decide⟩

def oneFile : ByteArr := ⟨[0x23, 0, 0xFF], by decide⟩

/-- A text, large data, and the file of the deep memory, on one channel. -/
def threeAnswers : List Response := [.text runReply, .frame oneData, .frame oneFile]

theorem runReply_sent (E : Env κ δ) (d : δ) : Sent E (.text runReply) (Response.text runReply).wire := by
  have hlen : (E.charset.encode (runReply.reply ++ lit "\n")).length ≤ 4 := by
    rw [encode_reply]
    decide
  refine .text (s := ⟨⟨[some 4], []⟩, d, []⟩) rfl rfl hlen ?_
  rw [encode_reply]
  rfl

theorem oneData_sent (file : Bytes) : Sent (bench true (some oneData) file) (.frame oneData)
    (Socket.frame oneData.1) := by
  have h : writeLargeData (bench true (some oneData) file) (lit "*ADC?")
      ⟨⟨[some 1, some 4, some 1, some 0, some 2], []⟩, (), []⟩ =
        .ok () ⟨⟨[], Socket.frame oneData.1⟩, (), [.writeLargeData (lit "*ADC?")]⟩ := rfl
  exact .large h rfl ⟨1, 4, 1, [some 0, some 2], rfl, by decide, by decide, by decide⟩ rfl

/-- What a program returned, and what it put on the channel. -/
def outcome (r : EStateM.Result Halt (Sending δ) JString) : Option (JString × Bytes) :=
  match r with
  | .ok rsp t => some (rsp, t.channel.taken)
  | .error _ _ => none

theorem oneFile_sent : Sent (bench true (some oneData) oneFile.1) (.frame oneFile) (Socket.frame oneFile.1) := by
  have hout : outcome (remoteDmTransmit (bench true (some oneData) oneFile.1)
      ⟨⟨[some 1, some 4, some 1, some 2, some 9], []⟩, (), []⟩) = some ([], Socket.frame oneFile.1) := by decide +kernel
  cases h : remoteDmTransmit (bench true (some oneData) oneFile.1)
      ⟨⟨[some 1, some 4, some 1, some 2, some 9], []⟩, (), []⟩ with
  | error e t =>
    rw [h] at hout
    cases hout
  | ok rsp t =>
    rw [h] at hout
    obtain ⟨hrsp, htaken⟩ := Prod.mk.inj (Option.some.inj hout)
    rw [hrsp] at h
    exact .remote h rfl ⟨1, 4, 1, [some 2, some 9], rfl, by decide, by decide, by decide⟩ htaken

theorem threeAnswers_sent : List.Forall₂ (Sent (bench true (some oneData) oneFile.1)) threeAnswers
    (threeAnswers.map Response.wire) :=
  .cons (runReply_sent _ ()) (.cons (oneData_sent _) (.cons oneFile_sent .nil))

/-- All three are read back, and the next answer is where the stream is left. -/
theorem session_plain_iff_three : session readOk 3 ((threeAnswers.map Response.wire).flatten ++ [0x52]) =
    some ([.text ['R', 'U', 'N'], .bytes oneData.1, .bytes oneFile.1], [0x52]) := by
  refine (session_plain_iff (bench true (some oneData) oneFile.1) threeAnswers _ threeAnswers_sent [0x52]).2 ?_
  have hdata : PlainLength oneData.1.length := by constructor <;> decide
  have hfile : PlainLength oneFile.1.length := by constructor <;> decide
  intro r hr
  simp only [threeAnswers, List.mem_cons, List.not_mem_nil, or_false] at hr
  rcases hr with rfl | rfl | rfl
  · exact trivial
  · exact hdata
  · exact hfile

end OwonVds.Scpi
