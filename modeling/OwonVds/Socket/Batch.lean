import OwonVds.Socket.Survival

/-!
# A batch of requests in one chunk

`translation` joins the replies of a batch with `;` into one attachment, and the flags that the batch raised choose one
mode for all of it. `Answered` says what the batch asks for: one call for every line, in order, where replies in
succession may share a text.

With one client, a batch gets that, and leaves the flags clean, if and only if it is a single deep-memory request, or
it finds no deep-memory transfer outstanding and is a single line or all text; and the answer is not a transfer that
throws (`batch_answered_iff`), which of a batch in order only one of an oversized file is (`not_refused`).
-/

namespace OwonVds.Socket

open Java

variable {κ δ : Type} {E : Env κ δ}

/-! ## What a batch asks for -/

/-- The calls answer the lines, given with the replies of their analyses. -/
inductive Answered : List (JString × JString) → List Act → Prop
  | nil : Answered [] []
  | adc {line reply : JString} {rest : List (JString × JString)} {acts : List Act} (hk : kindOf line = .adc)
      (h : Answered rest acts) : Answered ((line, reply) :: rest) (.writeLargeData line :: acts)
  | ldm {line reply cmd : JString} {rest : List (JString × JString)} {acts : List Act} (hk : kindOf line = .ldm)
      (hc : removeSemicolons cmd = line) (h : Answered rest acts) :
      Answered ((line, reply) :: rest) (.writeDmData false (some cmd) :: acts)
  | rdm {line reply cmd : JString} {rest : List (JString × JString)} {acts : List Act} (hk : kindOf line = .rdm)
      (hc : removeSemicolons cmd = line) (h : Answered rest acts) :
      Answered ((line, reply) :: rest) (.writeDmData true (some cmd) :: acts)
  | text {texts rest : List (JString × JString)} {acts : List Act} (hne : texts ≠ [])
      (hk : ∀ p ∈ texts, kindOf p.1 = .text) (h : Answered rest acts) :
      Answered (texts ++ rest) (.text ((lit ";").intercalate (texts.map Prod.snd) ++ lit "\n") :: acts)

/-- Calls of `writeLargeData` answer the lines they are called with. -/
theorem Answered.of_large {b : List (JString × JString)} {ps : List JString}
    (h : Answered b (ps.map .writeLargeData)) : b.map Prod.fst = ps ∧ ∀ p ∈ b, kindOf p.1 = .adc := by
  generalize ha : ps.map Act.writeLargeData = acts at h
  induction h generalizing ps with
  | nil =>
    have : ps = [] := by simpa using ha
    simp [this]
  | adc hk h ih =>
    cases ps with
    | nil => cases ha
    | cons p ps =>
      simp only [List.map_cons, List.cons.injEq, Act.writeLargeData.injEq] at ha
      obtain ⟨h1, h2⟩ := ih ha.2
      constructor
      · rw [List.map_cons, h1, ha.1]
      · intro q hq
        rcases List.mem_cons.1 hq with rfl | hq
        · exact hk
        · exact h2 q hq
  | ldm hk hc h ih => cases ps <;> cases ha
  | rdm hk hc h ih => cases ps <;> cases ha
  | text hne hk h ih => cases ps <;> cases ha

/-- No call answers no line. -/
theorem Answered.of_nil {b : List (JString × JString)} (h : Answered b []) : b = [] := by
  cases h
  rfl

/-- A single transfer answers a single deep-memory line. -/
theorem Answered.of_dm {b : List (JString × JString)} {remote : Bool} {cmd : Option JString}
    (h : Answered b [.writeDmData remote cmd]) :
    ∃ line, b.map Prod.fst = [line] ∧ (kindOf line = .ldm ∨ kindOf line = .rdm) := by
  cases h with
  | ldm hk hc h => exact ⟨_, by rw [h.of_nil]; rfl, .inl hk⟩
  | rdm hk hc h => exact ⟨_, by rw [h.of_nil]; rfl, .inr hk⟩

/-- The lines of a chunk with the replies of their analyses. -/
def batchOf (E : Env κ δ) (chunk : Bytes) (d : δ) : List (JString × JString) :=
  (chunkLines E.charset chunk).zip (replies E.factory (chunkLines E.charset chunk) d).1

theorem batchOf_lines (chunk : Bytes) (d : δ) : (batchOf E chunk d).map Prod.fst = chunkLines E.charset chunk := by
  unfold batchOf
  rw [List.map_fst_zip]
  rw [length_replies]

theorem batchOf_replies (chunk : Bytes) (d : δ) :
    (batchOf E chunk d).map Prod.snd = (replies E.factory (chunkLines E.charset chunk) d).1 := by
  unfold batchOf
  rw [List.map_snd_zip]
  rw [length_replies]

/-! ## The flags of a batch -/

theorem foldl_mark_large (ks : List Kind) (f : Flags) :
    (ks.foldl Flags.mark f).onlargeTransmit = true ↔ f.onlargeTransmit = true ∨ .adc ∈ ks := by
  induction ks generalizing f with
  | nil => simp
  | cons k ks ih =>
    rw [List.foldl_cons, ih]
    cases k <;> simp [Flags.mark]

theorem foldl_mark_dm (ks : List Kind) (f : Flags) :
    (ks.foldl Flags.mark f).onDmTransmit = true ↔ f.onDmTransmit = true ∨ .ldm ∈ ks ∨ .rdm ∈ ks := by
  induction ks generalizing f with
  | nil => simp
  | cons k ks ih =>
    rw [List.foldl_cons, ih]
    cases k <;> simp [Flags.mark]

theorem foldl_mark_text {ks : List Kind} (h : ∀ k ∈ ks, k = .text) (f : Flags) : ks.foldl Flags.mark f = f := by
  induction ks generalizing f with
  | nil => rfl
  | cons k ks ih =>
    rw [List.foldl_cons, h k List.mem_cons_self]
    exact ih (fun k hk => h k (List.mem_cons_of_mem _ hk)) f

/-- A remote transfer is a transfer. -/
def Flags.Sound (f : Flags) : Prop := f.isRemoteTransmit = true → f.onDmTransmit = true

theorem Flags.Sound.remote {f : Flags} (h : f.Sound) (hd : f.onDmTransmit = false) : f.isRemoteTransmit = false := by
  by_contra hr
  rw [Bool.not_eq_false] at hr
  rw [h hr] at hd
  cases hd

theorem foldl_mark_sound (ks : List Kind) {f : Flags} (h : f.Sound) : (ks.foldl Flags.mark f).Sound := by
  induction ks generalizing f with
  | nil => exact h
  | cons k ks ih =>
    rw [List.foldl_cons]
    apply ih
    cases k with
    | adc => exact h
    | ldm => exact fun _ => rfl
    | rdm => exact fun _ => rfl
    | text => exact h

theorem Flags.Sound.reset {f : Flags} (h : f.Sound) : f.reset.Sound := by
  unfold Flags.reset
  split
  · exact h
  · split
    · exact fun h => by cases h
    · exact h

theorem reset_large (f : Flags) : f.reset.onlargeTransmit = false := by
  unfold Flags.reset
  split
  · rfl
  · rename_i hl
    split
    · simpa using hl
    · simpa using hl

/-! ## The reply to a batch -/

/-- Binary lines stand for themselves. -/
theorem replies_binary {F : CmdFactory κ δ} {ls : List JString} (h : ∀ l ∈ ls, kindOf l ≠ .text) (d : δ) :
    (replies F ls d).1 = ls.map (· ++ lit ";") := by
  induction ls generalizing d with
  | nil => rfl
  | cons l ls ih =>
    have hl : replyOf F l d = l ++ lit ";" := if_neg (h l List.mem_cons_self)
    rw [replies, hl, ih fun l hl => h l (List.mem_cons_of_mem _ hl), List.map_cons]

theorem mem_intercalate {c : JChar} {p : JString} {ps : List JString} (sep : JString) (hp : p ∈ ps) (hc : c ∈ p) :
    c ∈ sep.intercalate ps := by
  induction ps with
  | nil => cases hp
  | cons q ps ih =>
    cases ps with
    | nil =>
      rw [List.mem_singleton.1 hp] at hc
      simpa using hc
    | cons q' ps =>
      rw [List.intercalate_cons_cons]
      rcases List.mem_cons.1 hp with rfl | hp
      · simp [hc]
      · simp [ih hp]

/-- A batch with a binary line has a reply. -/
theorem reply_ne_nil {F : CmdFactory κ δ} {ls : List JString} {l : JString} (hl : l ∈ ls) (hk : kindOf l ≠ .text)
    (d : δ) : (lit ";").intercalate (replies F ls d).1 ≠ [] := by
  have hmem : ∃ r ∈ (replies F ls d).1, semicolon ∈ r := by
    induction ls generalizing d with
    | nil => cases hl
    | cons q ls ih =>
      rcases List.mem_cons.1 hl with rfl | hl
      · refine ⟨_, List.mem_cons_self, ?_⟩
        rw [show replyOf F l d = l ++ lit ";" from if_neg hk, lit_semicolon]
        simp
      · obtain ⟨r, hr, hs⟩ := ih hl (afterLine F q d)
        exact ⟨r, List.mem_cons_of_mem _ hr, hs⟩
  obtain ⟨r, hr, hs⟩ := hmem
  intro h
  have := mem_intercalate (lit ";") hr hs
  rw [h] at this
  cases this

theorem intercalate_ends {c : JChar} {sep : JString} {ps : List JString} (hne : ps ≠ [])
    (h : ∀ p ∈ ps, p.getLast? = some c) : (sep.intercalate ps).getLast? = some c := by
  induction ps with
  | nil => exact absurd rfl hne
  | cons p ps ih =>
    cases ps with
    | nil => simpa using h p List.mem_cons_self
    | cons q ps =>
      have := ih (by simp) fun p hp => h p (List.mem_cons_of_mem _ hp)
      rw [List.intercalate_cons_cons, List.getLast?_append, this]
      rfl

/-- The reply to binary lines is not trimmed. -/
theorem trim_binary {l : JString} {ls : List JString} (h : kindOf l ≠ .text) :
    trim ((lit ";").intercalate ((l :: ls).map (· ++ lit ";"))) =
      (lit ";").intercalate ((l :: ls).map (· ++ lit ";")) := by
  obtain ⟨t, rfl⟩ := head_of_kind h
  have hhead : ∃ u, (lit ";").intercalate (((0x2A :: t) :: ls).map (· ++ lit ";")) = 0x2A :: u := by
    cases ls with
    | nil => exact ⟨_, rfl⟩
    | cons q ls => exact ⟨_, rfl⟩
  obtain ⟨u, hu⟩ := hhead
  have hlast : ((lit ";").intercalate (((0x2A :: t) :: ls).map (· ++ lit ";"))).getLast? = some semicolon := by
    refine intercalate_ends (by simp) fun p hp => ?_
    obtain ⟨q, -, rfl⟩ := List.mem_map.1 hp
    exact List.getLast?_concat
  exact trim_of_ends hu hlast (by decide) (by decide)

/-- The pieces of the reply to one `*ADC?` are that line. -/
theorem pieces_single {l : JString} (hk : kindOf l ≠ .text) (hs : semicolon ∉ l) :
    split semicolon (trim ((lit ";").intercalate ([l].map (· ++ lit ";")))) = [l] := by
  rw [trim_binary hk, List.map_singleton, List.intercalate_singleton, lit_semicolon]
  obtain ⟨t, rfl⟩ := head_of_kind hk
  exact split_ended hs (by simp)

/-- The pieces of the reply to several binary lines are not the lines: the second is empty. -/
theorem pieces_several {l l' : JString} {ls : List JString} (hk : kindOf l ≠ .text) (hk' : kindOf l' ≠ .text)
    (hs : semicolon ∉ l) : split semicolon (trim ((lit ";").intercalate ((l :: l' :: ls).map (· ++ lit ";")))) ≠
      l :: l' :: ls := by
  rw [trim_binary hk]
  intro h
  have hpre := split_prefix semicolon ((lit ";").intercalate ((l :: l' :: ls).map (· ++ lit ";")))
  rw [h] at hpre
  have hform : (lit ";").intercalate ((l :: l' :: ls).map (· ++ lit ";")) =
      l ++ semicolon :: ([] ++ semicolon :: (lit ";").intercalate ((l' :: ls).map (· ++ lit ";"))) := by
    rw [List.map_cons, List.map_cons, List.intercalate_cons_cons, lit_semicolon]
    simp
  rw [hform, List.splitOn_append_cons_self, List.splitOn_append_cons_self, List.splitOn_eq_singleton hs] at hpre
  obtain ⟨u, hu⟩ := hpre
  simp only [List.splitOn_nil, List.cons_append, List.nil_append, List.cons.injEq] at hu
  obtain ⟨t, ht⟩ := head_of_kind hk'
  rw [ht] at hu
  cases hu.2.1

/-! ## A single client -/

/-- The event concerns no other client. -/
def Only (c : Nat) : Event → Prop
  | .ready (.acceptable (.client c' _)) => c' = c
  | .ready (.readable c' _ _) => c' = c
  | .ready (.writable c' _) => c' = c
  | _ => True

/-- The flags of a server with a single client: `onlargeTransmit` is raised while an answer is pending only. -/
structure Solo (c : Nat) (s : Server δ) : Prop where
  sound : s.flags.Sound
  large : (∀ a, s.keys c ≠ some ⟨.opWrite, a⟩) → s.flags.onlargeTransmit = false

theorem afterChunk_flags (s : Server δ) (c : Nat) (chunk : Bytes) : (s.afterChunk E c chunk).flags =
    ((chunkLines E.charset chunk).map kindOf).foldl Flags.mark s.flags := by
  simp only [Server.afterChunk, chunkTranslation, translation_eq, chunkLines]

theorem chunkTranslation_reply (s : Server δ) (chunk : Bytes) : (chunkTranslation E s chunk).1 =
    (lit ";").intercalate (replies E.factory (chunkLines E.charset chunk) s.dev).1 := by
  simp only [chunkTranslation, translation_eq, chunkLines]

theorem not_writable {k : Option Key} {a : Option JString} (h : k = some ⟨.opRead, a⟩) :
    ∀ b, k ≠ some ⟨.opWrite, b⟩ := by
  intro b hb
  rw [h] at hb
  cases hb

theorem Moves.solo {c : Nat} {s s' : Server δ} {r : Ready} (h : Moves E s r s') (ho : Only c (.ready r))
    (hs : Solo c s) : Solo c s' := by
  cases h with
  | accept hk =>
    cases ho
    refine ⟨hs.sound, fun _ => hs.large fun a ha => ?_⟩
    rw [hk] at ha
    cases ha
  | @chunk _ chunk a f hk hne hl =>
    cases ho
    have hlarge := hs.large (not_writable hk)
    refine ⟨?_, fun hw => ?_⟩
    · rw [afterChunk_flags]
      exact foldl_mark_sound _ hs.sound
    · by_contra hl
      rw [Bool.not_eq_false, afterChunk_flags, foldl_mark_large] at hl
      rcases hl with hl | hl
      · rw [hlarge] at hl
        cases hl
      -- a binary line has a reply, so that the answer is pending
      · obtain ⟨line, hm, hkind⟩ := List.mem_map.1 hl
        have hr : (chunkTranslation E s chunk).1 ≠ [] := by
          rw [chunkTranslation_reply]
          exact reply_ne_nil hm (by rw [hkind]; decide) _
        exact hw (some (chunkTranslation E s chunk).1) (by simp [Server.afterChunk, hr])
  | close hk hr =>
    cases ho
    exact ⟨hs.sound, fun _ => hs.large (not_writable hk)⟩
  | answer hk d sent hw => exact ⟨hs.sound.reset, fun _ => reset_large _⟩

theorem Fails.solo {c : Nat} {s s' : Server δ} {r : Ready} {e : Exn} (h : Fails E s r e s') (ho : Only c (.ready r))
    (hs : Solo c s) : Solo c s' := by
  cases h with
  | accept hr => exact hs
  | close hk hr =>
    cases ho
    exact ⟨hs.sound, fun _ => hs.large (not_writable hk)⟩
  | write hk d hw => exact ⟨hs.sound, hs.large⟩

theorem solo_step {c : Nat} {l l' : Listen δ} {e : Event} (hl : l.server.Wf ∧ Solo c l.server) (ho : Only c e)
    (h : listenStep E l e = some l') : l'.server.Wf ∧ Solo c l'.server := by
  refine ⟨wf_step hl.1 h, ?_⟩
  obtain ⟨-, ⟨-, rfl⟩ | ⟨-, rfl⟩ | ⟨r, rfl, hm, -⟩ | ⟨r, x, rfl, hf, -⟩⟩ := listenStep_cases hl.1.buffer h
  · exact ⟨hl.2.sound, hl.2.large⟩
  · split
    · exact ⟨hl.2.sound, hl.2.large⟩
    · exact hl.2
  · exact hm.solo ho hl.2
  · exact hf.solo ho hl.2

/-! ## The answer to a batch -/

/-- A single deep-memory request; or, with no transfer outstanding, a single line or text only. -/
def BatchOk (onDmTransmit : Bool) (lines : List JString) : Prop :=
  (∃ line, lines = [line] ∧ (kindOf line = .ldm ∨ kindOf line = .rdm)) ∨
    (onDmTransmit = false ∧ (lines.length = 1 ∨ ∀ line ∈ lines, kindOf line = .text))

/-- The flags after the lines were analysed. -/
def flagsAfter (f : Flags) (lines : List JString) : Flags := (lines.map kindOf).foldl Flags.mark f

/-- A batch that is in order and raises a transfer is that one request. -/
theorem BatchOk.single {f : Flags} {lines : List JString} (h : BatchOk f.onDmTransmit lines)
    (hd : (flagsAfter f lines).onDmTransmit = true) (hl : (flagsAfter f lines).onlargeTransmit = false) :
    ∃ line, lines = [line] ∧ (kindOf line = .ldm ∨ kindOf line = .rdm) := by
  rcases h with h | ⟨h0, h⟩
  · exact h
  · unfold flagsAfter at hd
    rw [foldl_mark_dm, h0] at hd
    simp only [Bool.false_eq_true, List.mem_map, false_or] at hd
    rcases h with h | h
    · obtain ⟨line, rfl⟩ := List.length_eq_one_iff.1 h
      refine ⟨line, rfl, ?_⟩
      simpa using hd
    · rcases hd with ⟨line, hm, hk⟩ | ⟨line, hm, hk⟩
      · rw [h line hm] at hk
        cases hk
      · rw [h line hm] at hk
        cases hk

theorem removeSemicolons_line {line : JString} (h : semicolon ∉ line) : removeSemicolons (line ++ lit ";") = line := by
  unfold removeSemicolons
  rw [lit_semicolon, List.filter_append, List.filter_eq_self.2]
  · simp
  · intro c hc
    simp only [bne_iff_ne]
    rintro rfl
    exact h hc

theorem length_of_ldm {line : JString} (hk : kindOf line = .ldm) : (lit "*LDM?").length ≤ line.length := by
  unfold kindOf at hk
  split at hk
  · cases hk
  · split at hk
    · rename_i h
      exact (List.isPrefixOf_iff_prefix.1 h).length_le
    · split at hk <;> cases hk

/-- The reply to a single binary line. -/
theorem reply_single {F : CmdFactory κ δ} {line : JString} (hk : kindOf line ≠ .text) (d : δ) :
    (lit ";").intercalate (replies F [line] d).1 = line ++ lit ";" := by
  rw [replies_binary (by simpa using hk), List.map_singleton, List.intercalate_singleton]

/-- The whole reply to the lines. -/
def replyTo (F : CmdFactory κ δ) (lines : List JString) (d : δ) : JString := (lit ";").intercalate (replies F lines d).1

section Modes

variable {F : CmdFactory κ δ} {f : Flags} {lines : List JString} {b : List (JString × JString)} {d : δ}

theorem single_of_map {line : JString} (hb : b.map Prod.fst = [line]) : ∃ reply, b = [(line, reply)] := by
  obtain ⟨p, hp, rfl⟩ := List.map_eq_singleton_iff.1 hb
  exact ⟨p.2, hp⟩

/-- From a clean flag only an `*ADC?` line raises the large-data one. -/
theorem exists_adc (hl : f.onlargeTransmit = false) (hlarge : (flagsAfter f lines).onlargeTransmit = true) :
    ∃ line ∈ lines, kindOf line = .adc := by
  unfold flagsAfter at hlarge
  rw [foldl_mark_large, hl] at hlarge
  simpa using hlarge

/-- The reset after large data leaves the transfer flag as it was, so it is clean only if no transfer was
outstanding. -/
theorem no_transfer_of_reset (hlarge : (flagsAfter f lines).onlargeTransmit = true)
    (hc : (flagsAfter f lines).reset = Flags.clean) : f.onDmTransmit = false := by
  by_contra h0
  rw [Bool.not_eq_false] at h0
  have hd : (flagsAfter f lines).onDmTransmit = true := (foldl_mark_dm _ f).2 (.inl h0)
  unfold Flags.reset at hc
  rw [if_pos hlarge] at hc
  have hd' : (flagsAfter f lines).onDmTransmit = false := congrArg Flags.onDmTransmit hc
  rw [hd] at hd'
  cases hd'

/-- Binary lines that are the pieces of their own reply are one line: a second one comes with an empty piece before
it. -/
theorem one_of_pieces (hne : lines ≠ []) (hsemi : ∀ line ∈ lines, semicolon ∉ line)
    (hk : ∀ line ∈ lines, kindOf line ≠ .text) (hps : lines = split semicolon (trim (replyTo F lines d))) :
    lines.length = 1 := by
  cases lines with
  | nil => exact absurd rfl hne
  | cons l ls =>
    cases ls with
    | nil => rfl
    | cons l' ls =>
      rw [replyTo, replies_binary hk] at hps
      exact absurd hps.symm (pieces_several (hk l (by simp)) (hk l' (by simp)) (hsemi l (by simp)))

/-- The answer as large data. -/
theorem answered_large (hb : b.map Prod.fst = lines) (hne : lines ≠ []) (hsemi : ∀ line ∈ lines, semicolon ∉ line)
    (hl : f.onlargeTransmit = false) (hs : f.Sound) (hlarge : (flagsAfter f lines).onlargeTransmit = true) :
    Answered b (actsOf (flagsAfter f lines) (some (replyTo F lines d))) ∧ (flagsAfter f lines).reset = Flags.clean ↔
      BatchOk f.onDmTransmit lines := by
  unfold actsOf
  rw [if_pos hlarge]
  constructor
  · rintro ⟨ha, hc⟩
    obtain ⟨hps, hall⟩ := ha.of_large
    rw [hb] at hps
    have hk : ∀ line ∈ lines, kindOf line ≠ .text := by
      intro line hline
      rw [← hb] at hline
      obtain ⟨p, hp, rfl⟩ := List.mem_map.1 hline
      rw [hall p hp]
      decide
    exact .inr ⟨no_transfer_of_reset hlarge hc, .inl (one_of_pieces hne hsemi hk hps)⟩
  · intro hok
    obtain ⟨l, hm, ha⟩ := exists_adc hl hlarge
    rcases hok with ⟨line, rfl, hk⟩ | ⟨h0, h1 | ht⟩
    · rw [List.mem_singleton.1 hm] at ha
      rw [ha] at hk
      rcases hk with hk | hk <;> cases hk
    · obtain ⟨line, rfl⟩ := List.length_eq_one_iff.1 h1
      have hk : kindOf line = .adc := by
        rw [List.mem_singleton.1 hm] at ha
        exact ha
      obtain ⟨reply, rfl⟩ := single_of_map hb
      have hk' : kindOf line ≠ .text := by rw [hk]; decide
      constructor
      · rw [replyTo, replies_binary (by simpa using hk'), Option.getD_some, pieces_single hk' (hsemi line (by simp))]
        exact .adc hk .nil
      · have hr := hs.remote h0
        unfold Flags.reset
        rw [if_pos hlarge]
        simp [flagsAfter, hk, Flags.mark, h0, hr, Flags.clean]
    · rw [ht l hm] at ha
      cases ha

/-- The answer as a deep-memory transfer. -/
theorem answered_dm (hb : b.map Prod.fst = lines) (hsemi : ∀ line ∈ lines, semicolon ∉ line)
    (hlarge : (flagsAfter f lines).onlargeTransmit = false) (hdm : (flagsAfter f lines).onDmTransmit = true) :
    Answered b (actsOf (flagsAfter f lines) (some (replyTo F lines d))) ∧ (flagsAfter f lines).reset = Flags.clean ↔
      BatchOk f.onDmTransmit lines := by
  unfold actsOf
  rw [if_neg (by simp [hlarge]), if_pos hdm]
  constructor
  · rintro ⟨ha, -⟩
    obtain ⟨line, hline, hk⟩ := ha.of_dm
    rw [hb] at hline
    exact .inl ⟨line, hline, hk⟩
  · intro hok
    obtain ⟨line, rfl, hk⟩ := hok.single hdm hlarge
    obtain ⟨reply, rfl⟩ := single_of_map hb
    have hk' : kindOf line ≠ .text := by rcases hk with hk | hk <;> rw [hk] <;> decide
    constructor
    · rw [replyTo, reply_single hk']
      have hrem := removeSemicolons_line (hsemi line (by simp))
      rcases hk with hk | hk
      · have hr : (flagsAfter f [line]).isRemoteTransmit = false := by simp [flagsAfter, hk, Flags.mark]
        rw [hr]
        exact .ldm hk hrem .nil
      · have hr : (flagsAfter f [line]).isRemoteTransmit = true := by simp [flagsAfter, hk, Flags.mark]
        rw [hr]
        exact .rdm hk hrem .nil
    · unfold Flags.reset
      rw [if_neg (by simp [hlarge]), if_pos hdm]
      simp [Flags.clean, hlarge]

/-- The answer as text. -/
theorem answered_text (hb : b.map Prod.fst = lines) (hr : b.map Prod.snd = (replies F lines d).1) (hne : lines ≠ [])
    (hs : f.Sound) (hlarge : (flagsAfter f lines).onlargeTransmit = false)
    (hdm : (flagsAfter f lines).onDmTransmit = false) :
    Answered b (actsOf (flagsAfter f lines) (some (replyTo F lines d))) ∧ (flagsAfter f lines).reset = Flags.clean ↔
      BatchOk f.onDmTransmit lines := by
  have hno : ∀ line ∈ lines, kindOf line = .text := by
    intro line hline
    have hadc : kindOf line ≠ .adc := by
      intro hk
      have := (foldl_mark_large (lines.map kindOf) f).2 (.inr (List.mem_map.2 ⟨line, hline, hk⟩))
      rw [flagsAfter, this] at hlarge
      cases hlarge
    have hdm' : ∀ k, k = .ldm ∨ k = .rdm → kindOf line ≠ k := by
      intro k hk' hk
      have hm := List.mem_map.2 ⟨line, hline, hk⟩
      have := (foldl_mark_dm (lines.map kindOf) f).2 (.inr (by rcases hk' with rfl | rfl <;> simp [hm]))
      rw [flagsAfter, this] at hdm
      cases hdm
    cases hk : kindOf line with
    | adc => exact absurd hk hadc
    | ldm => exact absurd hk (hdm' _ (.inl rfl))
    | rdm => exact absurd hk (hdm' _ (.inr rfl))
    | text => rfl
  have hf : flagsAfter f lines = f := foldl_mark_text (by simpa using hno) f
  rw [hf] at hlarge hdm
  refine iff_of_true ⟨?_, ?_⟩ (.inr ⟨hdm, .inr hno⟩)
  · unfold actsOf
    rw [hf, if_neg (by simp [hlarge]), if_neg (by simp [hdm])]
    have hbne : b ≠ [] := by
      rintro rfl
      exact hne hb.symm
    have hk : ∀ p ∈ b, kindOf p.1 = .text := by
      intro p hp
      exact hno p.1 (hb ▸ List.mem_map_of_mem hp)
    have := Answered.text hbne hk .nil
    rw [List.append_nil, hr] at this
    exact this
  · have hr := hs.remote hdm
    rw [hf]
    unfold Flags.reset
    rw [if_neg (by simp [hlarge]), if_neg (by simp [hdm])]
    obtain ⟨l, m, r⟩ := f
    dsimp only at hlarge hdm hr
    rw [hlarge, hdm, hr]
    rfl

end Modes

/-- **The answer to a batch**: the calls that follow the flags are what the batch asks for, and the flags are clean
afterwards, exactly for a batch in order. -/
theorem answered_iff {f : Flags} {chunk : Bytes} {d : δ} (hl : f.onlargeTransmit = false) (hs : f.Sound) :
    Answered (batchOf E chunk d) (actsOf (flagsAfter f (chunkLines E.charset chunk))
        (some (replyTo E.factory (chunkLines E.charset chunk) d))) ∧
      (flagsAfter f (chunkLines E.charset chunk)).reset = Flags.clean ↔
    BatchOk f.onDmTransmit (chunkLines E.charset chunk) := by
  have hne := chunkLines_ne_nil E.charset chunk
  have hsemi : ∀ line ∈ chunkLines E.charset chunk, semicolon ∉ line := fun line => semicolon_notMem
  cases hlarge : (flagsAfter f (chunkLines E.charset chunk)).onlargeTransmit with
  | true => exact answered_large (batchOf_lines chunk d) hne hsemi hl hs hlarge
  | false =>
    cases hdm : (flagsAfter f (chunkLines E.charset chunk)).onDmTransmit with
    | true => exact answered_dm (batchOf_lines chunk d) hsemi hlarge hdm
    | false => exact answered_text (batchOf_lines chunk d) (batchOf_replies chunk d) hne hs hlarge hdm

/-- A batch in order is not refused, if the copied file has a length as an `int`. -/
theorem not_refused {s : Server δ} {c : Nat} {chunk : Bytes}
    (hfile : ∀ d, (E.platform.tempContent d).length < 0x80000000)
    (hok : BatchOk s.flags.onDmTransmit (chunkLines E.charset chunk))
    (hk : (s.afterChunk E c chunk).keys c =
      some ⟨.opWrite, some (replyTo E.factory (chunkLines E.charset chunk) s.dev)⟩) :
    refuses E (s.afterChunk E c chunk) c = false := by
  unfold refuses
  rw [afterChunk_flags, hk]
  by_contra h
  simp only [Bool.not_eq_false, Bool.and_eq_true, Bool.not_eq_true'] at h
  obtain ⟨⟨hl, hd⟩, hr⟩ := h
  obtain ⟨line, hline, hkind⟩ := hok.single hd hl
  have hsemi : semicolon ∉ line := @semicolon_notMem E.charset chunk line (by simp [hline])
  have hne : kindOf line ≠ .text := by rcases hkind with hkind | hkind <;> rw [hkind] <;> decide
  rw [hline, replyTo, reply_single hne] at hr
  rcases hkind with hkind | hkind
  · have hlen : (lit "*LDM?").length ≤ (removeSemicolons (line ++ lit ";")).length := by
      rw [removeSemicolons_line hsemi]
      exact length_of_ldm hkind
    rw [show ([line].map kindOf).foldl Flags.mark s.flags = s.flags.mark .ldm by simp [hkind]] at hr
    exact absurd hr (by rw [Option.bind_some, Flags.mark, refusesDm_of (dmThrows_local hlen)]; exact Bool.false_ne_true)
  · rw [show ([line].map kindOf).foldl Flags.mark s.flags = s.flags.mark .rdm by simp [hkind]] at hr
    exact absurd hr (by rw [Flags.mark, refusesDm_of (dmThrows_remote hfile)]; exact Bool.false_ne_true)

/-! ## The two steps -/

/-- A read step after which the client is writable read a chunk with that reply. -/
theorem read_step {l l₁ : Listen δ} {c : Nat} {chunk : Bytes} {f : Bool} {reply : JString} (hw : l.server.Wf)
    (h : listenStep E l (.ready (.readable c (.bytes chunk) f)) = some l₁)
    (hk₁ : l₁.server.keys c = some ⟨.opWrite, some reply⟩) (hr₁ : l₁.status = .running) :
    l₁.server = l.server.afterChunk E c chunk ∧ reply = replyTo E.factory (chunkLines E.charset chunk) l.server.dev ∧
      ∃ a, l.server.keys c = some ⟨.opRead, a⟩ := by
  obtain ⟨-, ⟨hr, -⟩ | ⟨hr, -⟩ | ⟨r, hr, hm, -⟩ | ⟨r, x, -, -, hd⟩⟩ := listenStep_cases hw.buffer h
  · cases hr
  · cases hr
  · cases hr
    generalize l₁.server = s₁ at hm hk₁
    cases hm with
    | chunk hk hne hl =>
      refine ⟨rfl, ?_, _, hk⟩
      by_cases hrep : (chunkTranslation E l.server chunk).1 ≠ []
      · simp only [Server.afterChunk, if_pos hrep, Function.update_self, Option.some.injEq, Key.mk.injEq,
          true_and] at hk₁
        rw [← hk₁, chunkTranslation_reply]
        rfl
      · simp only [Server.afterChunk, if_neg hrep] at hk₁
        exact absurd hk₁ (not_writable hk _)
    | close hk hr => simp [Server.afterClose] at hk₁
  · rw [hr₁] at hd
    cases hd

/-- A write step answers the pending reply, or fails. -/
theorem write_step {l l₂ : Listen δ} {c : Nat} {schedule : List (Option Nat)} (hw : l.server.Wf)
    (h : listenStep E l (.ready (.writable c schedule)) = some l₂) :
    ∃ reply, l.server.keys c = some ⟨.opWrite, some reply⟩ ∧
      ((l₂.status = .running ∧ refuses E l.server c = false ∧
          ∃ d sent, l₂.server = l.server.afterAnswer c (some reply) d sent) ∨
        (l₂.status ≠ .running ∧ (schedule.getLast? = some none ∨ refuses E l.server c = true))) := by
  obtain ⟨-, ⟨hr, -⟩ | ⟨hr, -⟩ | ⟨r, hr, hm, hrun⟩ | ⟨r, x, hr, hf, hd⟩⟩ := listenStep_cases hw.buffer h
  · cases hr
  · cases hr
  · cases hr
    generalize l₂.server = s₂ at hm
    cases hm with
    | answer hk d sent hstep =>
      obtain ⟨reply, -, rfl⟩ := hw.pending hk
      exact ⟨reply, hk, .inl ⟨hrun, ((writeStep_last hk).1 hstep).2, d, sent, rfl⟩⟩
  · cases hr
    generalize l₂.server = s₂ at hf
    cases hf with
    | write hk d hstep =>
      obtain ⟨reply, -, rfl⟩ := hw.pending hk
      exact ⟨reply, hk, .inr ⟨by rw [hd]; simp, (writeStep_last hk).2 hstep⟩⟩

/-- The write step goes through, makes one answer that is the batch's, and leaves the flags clean. -/
def AnsweredClean (E : Env κ δ) (chunk : Bytes) (l l₁ l₂ : Listen δ) : Prop :=
  l₂.status = .running ∧ (∃ c cmd mode acts sent,
    l₂.server.history = l₁.server.history ++ [.answer c cmd mode acts sent] ∧
      Answered (batchOf E chunk l.server.dev) acts) ∧ l₂.server.flags = Flags.clean

/-- **One answer for every line and clean flags**, with a single client: after any run, a chunk is read and the write
step that follows has no failing write. -/
theorem batch_answered_iff (E : Env κ δ) (d : δ) (c : Nat)
    (es : List Event) (l l₁ l₂ : Listen δ) (chunk : Bytes) (closeFails : Bool) (schedule : List (Option Nat))
    (hone : ∀ e ∈ es, Only c e) (h : Trans.run (listenStep E) (.fresh d) es = some l)
    (hread : listenStep E l (.ready (.readable c (.bytes chunk) closeFails)) = some l₁)
    (hwrite : listenStep E l₁ (.ready (.writable c schedule)) = some l₂) (hsched : none ∉ schedule) :
    AnsweredClean E chunk l l₁ l₂ ↔
      BatchOk l.server.flags.onDmTransmit (chunkLines E.charset chunk) ∧ refuses E l₁.server c = false := by
  have hstart : (Server.fresh d).Wf ∧ Solo c (Server.fresh d) :=
    ⟨fresh_wf d, ⟨fun h => (by cases h), fun _ => rfl⟩⟩
  obtain ⟨hw, hs⟩ := Trans.run_inv_along (I := fun l : Listen δ => l.server.Wf ∧ Solo c l.server)
    (P := fun _ e => Only c e) (fun _ _ _ hl ho h => solo_step hl ho h) (Trans.along_of_forall (Listen.fresh d) hone) h
    hstart
  obtain ⟨reply, hk₁, hout⟩ := write_step (wf_step hw hread) hwrite
  obtain ⟨hs₁, rfl, a, hk⟩ := read_step hw hread hk₁ (running_of_step hwrite)
  have hflags : l₁.server.flags = flagsAfter l.server.flags (chunkLines E.charset chunk) := by
    rw [hs₁]
    exact afterChunk_flags _ _ _
  have hcore := @answered_iff _ _ E l.server.flags chunk l.server.dev (hs.large (not_writable hk)) hs.sound
  rcases hout with ⟨hrun, hok, d', sent, hs₂⟩ | ⟨hdead, hwhy⟩
  · rw [and_iff_left hok, ← hcore, AnsweredClean, hs₂]
    simp only [Server.afterAnswer, hflags]
    constructor
    · rintro ⟨-, ⟨_, _, _, _, _, hh, ha⟩, hc⟩
      have := (List.append_inj' hh rfl).2
      simp only [List.cons.injEq, Obs.answer.injEq, and_true] at this
      obtain ⟨-, -, -, rfl, -⟩ := this
      exact ⟨ha, hc⟩
    · rintro ⟨ha, hc⟩
      exact ⟨hrun, ⟨_, _, _, _, _, rfl, ha⟩, hc⟩
  · constructor
    · intro h
      exact absurd h.1 hdead
    · rintro ⟨-, hok⟩
      exfalso
      rcases hwhy with hlast | hrefuse
      · exact hsched (List.mem_of_getLast? hlast)
      · rw [hok] at hrefuse
        cases hrefuse

/-- Two requests in one chunk, `*ADC?` and a text. -/
def mixedBatch : Bytes := [0x2A, 0x41, 0x44, 0x43, 0x3F, 0x3B, 0x41]

/-- What the server does with it: three calls of `writeLargeData`. -/
def mixedHistory : List Obs :=
  [.chunk 1 mixedBatch (lit "*ADC?;;CAN NOT ANALYSE THE ORDER")] ++
    [.answer 1 (lit "*ADC?;;CAN NOT ANALYSE THE ORDER") .large
      [.writeLargeData (lit "*ADC?"), .writeLargeData [], .writeLargeData (lit "CAN NOT ANALYSE THE ORDER")]
      [0x23, 0, 0, 0, 0, 0x23, 0, 0, 0, 0, 0x23, 0, 0, 0, 0]]

theorem mixedBatch_run : ∃ l l₁ l₂,
    Trans.run (listenStep (bench true none [])) (.fresh ()) [.ready (.acceptable (.client 1 false))] = some l ∧
    listenStep (bench true none []) l (.ready (.readable 1 (.bytes mixedBatch) false)) = some l₁ ∧
    listenStep (bench true none []) l₁ (.ready (.writable 1 (List.replicate 6 (some 4)))) = some l₂ ∧
    l₂.server.history = mixedHistory := by
  obtain ⟨l₂, h, hh⟩ := Option.map_eq_some_iff.1 (by decide +kernel : (Trans.run (listenStep (bench true none []))
    (.fresh ()) ([.ready (.acceptable (.client 1 false))] ++ [.ready (.readable 1 (.bytes mixedBatch) false),
      .ready (.writable 1 (List.replicate 6 (some 4)))])).map (fun l => l.server.history) = some mixedHistory)
  obtain ⟨l, h₀, h⟩ := Trans.run_append.1 h
  obtain ⟨l₁, h₁, h⟩ := Trans.run_cons_eq.1 h
  exact ⟨l, l₁, l₂, h₀, h₁, Trans.run_singleton.1 h, hh⟩

/-- A batch can be answered with calls for strings that were not in it. -/
theorem mixedBatch_not_answered : ∃ l l₁ l₂,
    Trans.run (listenStep (bench true none [])) (.fresh ()) [.ready (.acceptable (.client 1 false))] = some l ∧
    listenStep (bench true none []) l (.ready (.readable 1 (.bytes mixedBatch) false)) = some l₁ ∧
    listenStep (bench true none []) l₁ (.ready (.writable 1 (List.replicate 6 (some 4)))) = some l₂ ∧
    ¬ AnsweredClean (bench true none []) mixedBatch l l₁ l₂ := by
  obtain ⟨l, l₁, l₂, h₀, h₁, h₂, hh⟩ := mixedBatch_run
  refine ⟨l, l₁, l₂, h₀, h₁, h₂, ?_⟩
  rintro ⟨-, ⟨_, _, _, acts, _, hh', ha⟩, -⟩
  have := (List.append_inj' (hh.symm.trans hh') rfl).2
  simp only [List.cons.injEq, Obs.answer.injEq, and_true] at this
  obtain ⟨-, -, -, rfl, -⟩ := this
  have hp := (@Answered.of_large _ [lit "*ADC?", [], lit "CAN NOT ANALYSE THE ORDER"] ha).1
  rw [batchOf_lines] at hp
  exact absurd hp (by decide)

theorem batch_answered_iff_mixed : ∃ l l₁ l₂,
    Trans.run (listenStep (bench true none [])) (.fresh ()) [.ready (.acceptable (.client 1 false))] = some l ∧
    listenStep (bench true none []) l (.ready (.readable 1 (.bytes mixedBatch) false)) = some l₁ ∧
    listenStep (bench true none []) l₁ (.ready (.writable 1 (List.replicate 6 (some 4)))) = some l₂ ∧
    (AnsweredClean (bench true none []) mixedBatch l l₁ l₂ ↔
      BatchOk l.server.flags.onDmTransmit (chunkLines latin1 mixedBatch) ∧
        refuses (bench true none []) l₁.server 1 = false) := by
  obtain ⟨l, l₁, l₂, h₀, h₁, h₂, -⟩ := mixedBatch_run
  refine ⟨l, l₁, l₂, h₀, h₁, h₂, ?_⟩
  exact batch_answered_iff (bench true none []) () 1 _ l l₁ l₂ mixedBatch false _
    (fun e he => by rw [List.mem_singleton.1 he]; rfl) h₀ h₁ h₂ (by decide)

end OwonVds.Socket
