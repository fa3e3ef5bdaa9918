import Mathlib.Data.Bool.AllAny
import Mathlib.Data.List.DropRight
import OwonVds.Lib.Recut

/-!
# Java strings

A Java string is its list of UTF-16 code units. The server uses `trim` (which strips every character up to U+0020),
`split` at one character (which drops trailing empty pieces, but never the only piece), and two `replaceAll` calls:
`\s*` for the six whitespace characters of the regular expressions, and `;`.

The platform's default charset is a parameter (`Charset`): all that is used of it is that a byte below 128 is decoded
as itself wherever it stands, and that the other bytes give no such character.

`trim` and the whitespace removal see nothing of the blanks at the ends of a piece (`clean_neglects`), so what the
server analyses of a text does not change when the text is trimmed and ended with a carriage return (`pieces_line`).
-/

namespace OwonVds.Java

abbrev Bytes := List UInt8

abbrev JChar := UInt16

abbrev JString := List JChar

/-- A string literal of the source. -/
def lit (s : String) : JString := s.toList.map fun c => UInt16.ofNat c.toNat

def semicolon : JChar := 0x3B

def cr : JChar := 0x0D

theorem lit_semicolon : lit ";" = [semicolon] := by decide

/-- What `String.trim` strips. -/
def blank (c : JChar) : Bool := c ≤ 0x20

/-- The class `\s`: space, tab, line feed, vertical tab, form feed, carriage return. -/
def isSpace (c : JChar) : Bool := c == 0x20 || c == 0x09 || c == 0x0A || c == 0x0B || c == 0x0C || c == 0x0D

def trim (s : JString) : JString := (s.dropWhile blank).rdropWhile blank

/-- `replaceAll("\\s*", "")`. -/
def removeSpaces (s : JString) : JString := s.filter fun c => !isSpace c

/-- `replaceAll(";", "")`. -/
def removeSemicolons (s : JString) : JString := s.filter (· != semicolon)

/-- `split` at one character: a string without it is its only piece; otherwise trailing empty pieces are dropped. -/
def split (sep : JChar) (s : JString) : List JString :=
  match s.splitOn sep with
  | [p] => [p]
  | ps => ps.rdropWhile List.isEmpty

def startsWith (s p : JString) : Bool := p.isPrefixOf s

/-- `substring(n)`, if the string is that long. -/
def substring (s : JString) (n : Nat) : Option JString := if n ≤ s.length then some (s.drop n) else none

theorem substring_eq_none {s : JString} {n : Nat} : substring s n = none ↔ s.length < n := by
  unfold substring
  split <;> simp <;> omega

theorem blank_of_isSpace {c : JChar} (h : isSpace c = true) : blank c = true := by
  simp only [isSpace, Bool.or_eq_true, beq_iff_eq] at h
  rcases h with ((((rfl | rfl) | rfl) | rfl) | rfl) | rfl <;> decide

/-! ## Trimming -/

theorem trim_append_left {b : JString} (hb : ∀ c ∈ b, blank c = true) (s : JString) : trim (b ++ s) = trim s := by
  have : (b ++ s).dropWhile blank = s.dropWhile blank := by
    rw [List.dropWhile_append]
    have hd : b.dropWhile blank = [] := List.dropWhile_eq_nil_iff.2 hb
    simp [hd]
  simp [trim, this]

theorem rdropWhile_append_blank {b : JString} (hb : ∀ c ∈ b, blank c = true) (s : JString) :
    (s ++ b).rdropWhile blank = s.rdropWhile blank := by
  induction b using List.reverseRecOn with
  | nil => simp
  | append_singleton b c ih =>
    rw [← List.append_assoc, List.rdropWhile_concat_pos _ _ _ (hb c (by simp))]
    exact ih fun d hd => hb d (by simp [hd])

theorem trim_append_right {b : JString} (hb : ∀ c ∈ b, blank c = true) (s : JString) : trim (s ++ b) = trim s := by
  unfold trim
  rw [List.dropWhile_append]
  by_cases hs : (s.dropWhile blank).isEmpty = true
  · have hb' : b.dropWhile blank = [] := List.dropWhile_eq_nil_iff.2 hb
    simp only [List.isEmpty_iff] at hs
    simp [hs, hb']
  · simp only [hs, Bool.false_eq_true, if_false]
    exact rdropWhile_append_blank hb _

/-- A string is its trimmed self between blanks. -/
theorem trim_spec (s : JString) : ∃ b b', s = b ++ trim s ++ b' ∧ (∀ c ∈ b, blank c = true) ∧
    ∀ c ∈ b', blank c = true := by
  refine ⟨s.takeWhile blank, (s.dropWhile blank).rtakeWhile blank, ?_, ?_, ?_⟩
  · rw [List.append_assoc, trim, List.rdropWhile_append_rtakeWhile, List.takeWhile_append_dropWhile]
  · intro c hc; exact List.mem_takeWhile_imp hc
  · intro c hc; exact List.mem_rtakeWhile_imp hc

/-- A string without blanks at its ends is not trimmed. -/
theorem trim_of_ends {s t : JString} {c c' : JChar} (hs : s = c :: t) (hs' : s.getLast? = some c')
    (hc : blank c = false) (hc' : blank c' = false) : trim s = s := by
  subst hs
  unfold trim
  rw [List.dropWhile_cons_of_neg (by simp [hc])]
  refine List.rdropWhile_eq_self_iff.2 fun hne => ?_
  rw [List.getLast?_eq_getLast_of_ne_nil hne, Option.some.injEq] at hs'
  rw [hs', hc']
  simp

theorem mem_of_mem_trim {s : JString} {c : JChar} (h : c ∈ trim s) : c ∈ s := by
  obtain ⟨b, b', hs, -, -⟩ := trim_spec s
  rw [hs]
  simp [h]

/-! ## Pieces -/

theorem semicolon_not_blank : blank semicolon = false := by decide

theorem cr_blank : blank cr = true := by decide

/-- Trim, then remove the whitespace inside. -/
def clean (s : JString) : JString := removeSpaces (trim s)

theorem clean_neglects : Recut.Neglects blank semicolon clean where
  sep_not_blank := semicolon_not_blank
  left b p hb := by simp [clean, trim_append_left hb]
  right b p hb := by simp [clean, trim_append_right hb]

/-- The whitespace removal keeps every character that is not blank. -/
theorem solid_clean (s : JString) : Recut.solid blank (clean s) = Recut.solid blank s := by
  obtain ⟨b, b', hs, hb, hb'⟩ := trim_spec s
  have none : ∀ x : JString, (∀ c ∈ x, blank c = true) → Recut.solid blank x = [] := by
    intro x hx
    simpa [Recut.solid] using hx
  have happ : ∀ x y, Recut.solid blank (x ++ y) = Recut.solid blank x ++ Recut.solid blank y := by
    intro x y; simp [Recut.solid]
  have hclean : Recut.solid blank (clean s) = Recut.solid blank (trim s) := by
    simp only [clean, removeSpaces, Recut.solid, List.filter_filter]
    congr 1
    funext c
    cases hc : blank c with
    | true => rfl
    | false =>
      cases hs : isSpace c with
      | true => rw [blank_of_isSpace hs] at hc; cases hc
      | false => rfl
  rw [hclean]
  conv_rhs => rw [hs]
  rw [happ, happ, none b hb, none b' hb', List.nil_append, List.append_nil]

/-- `split` drops nothing of a string that ends with another character. -/
theorem split_concat {sep c : JChar} (hc : c ≠ sep) (s : JString) :
    split sep (s ++ [c]) = (s ++ [c]).splitOn sep := by
  obtain ⟨ps, l, h⟩ := @Recut.splitOn_append_last _ _ sep s
  have hs := h [c] (by simpa using fun h => hc h.symm)
  unfold split
  rw [hs]
  split
  · rename_i p hp
    exact hp.symm
  · rw [List.rdropWhile_concat_neg]
    simp

/-- The pieces of `split` begin those of the text. -/
theorem split_prefix (sep : JChar) (s : JString) : split sep s <+: s.splitOn sep := by
  unfold split
  split
  · rename_i p hp
    exact ⟨[], hp.symm⟩
  · exact List.rdropWhile_prefix _ _

/-- `split` at the only separator, the last character. -/
theorem split_ended {sep : JChar} {p : JString} (hp : sep ∉ p) (hne : p ≠ []) : split sep (p ++ [sep]) = [p] := by
  have hs : (p ++ [sep]).splitOn sep = [p, []] := by
    rw [List.splitOn_append_cons_self, List.splitOn_eq_singleton hp]
    rfl
  unfold split
  rw [hs]
  show [p, []].rdropWhile _ = _
  rw [show [p, ([] : JString)] = [p] ++ [[]] from rfl, List.rdropWhile_concat_pos _ _ _ rfl]
  exact List.rdropWhile_eq_self_iff.2 fun h => by simpa using hne

/-- What is analysed of a text is what is analysed of the text trimmed and ended with a carriage return. -/
theorem pieces_line (s : JString) : (split semicolon (trim s ++ [cr])).map clean = (s.splitOn semicolon).map clean := by
  obtain ⟨b, b', hs, hb, hb'⟩ := trim_spec s
  rw [split_concat (by decide), clean_neglects.append_blank (by simpa using cr_blank)]
  conv_rhs => rw [hs]
  rw [clean_neglects.append_blank hb']
  have h0 : Recut.load blank semicolon b = 0 := by
    simp only [Recut.load, List.countP_eq_zero, Bool.and_eq_true, Bool.not_eq_true', decide_eq_true_eq, not_and]
    intro a ha h
    rw [hb a ha] at h
    cases h
  have hc : b.count semicolon = 0 := List.count_eq_zero.2 (clean_neglects.sep_notMem hb)
  rw [clean_neglects.prepend b _ h0, hc]
  simp

/-! ## Bytes and characters -/

/-- The default charset: a byte below 128 is decoded as itself, the others give other characters. -/
structure Charset where
  decode : Bytes → JString
  encode : JString → Bytes
  decode_nil : decode [] = []
  decode_ascii : ∀ xs (a : UInt8) ys, a < 128 → decode (xs ++ a :: ys) = decode xs ++ a.toUInt16 :: decode ys
  decode_high : ∀ xs, (∀ a ∈ xs, 128 ≤ a) → ∀ c ∈ decode xs, 128 ≤ c
  encode_ascii : ∀ s, (∀ c ∈ s, c < 128) → encode s = s.map UInt16.toUInt8

/-- The charset of one byte a character; a character it does not have is encoded as a question mark. -/
def latin1 : Charset where
  decode xs := xs.map UInt8.toUInt16
  encode s := s.map fun c => if c < 256 then c.toUInt8 else 0x3F
  decode_nil := rfl
  decode_ascii xs a ys _ := by simp
  decode_high xs h c hc := by
    obtain ⟨a, ha, rfl⟩ := List.mem_map.1 hc
    have := h a ha
    simpa [UInt16.le_iff_toNat_le, UInt8.le_iff_toNat_le] using this
  encode_ascii s h := by
    refine List.map_congr_left fun c hc => if_pos ?_
    have := h c hc
    simp only [UInt16.lt_iff_toNat_lt] at this ⊢
    exact Nat.lt_trans this (by decide)

variable (cs : Charset)

theorem Charset.decode_of_ascii {xs : Bytes} (h : ∀ a ∈ xs, a < 128) : cs.decode xs = xs.map UInt8.toUInt16 := by
  induction xs with
  | nil => exact cs.decode_nil
  | cons a xs ih =>
    have := cs.decode_ascii [] a xs (h a List.mem_cons_self)
    rw [List.nil_append, cs.decode_nil, List.nil_append] at this
    rw [this, ih fun b hb => h b (List.mem_cons_of_mem _ hb), List.map_cons]

/-- ASCII text in front of a byte sequence is decoded on its own. -/
theorem Charset.decode_append_left {xs : Bytes} (h : ∀ a ∈ xs, a < 128) (ys : Bytes) :
    cs.decode (xs ++ ys) = xs.map UInt8.toUInt16 ++ cs.decode ys := by
  induction xs with
  | nil => rfl
  | cons a xs ih =>
    have := cs.decode_ascii [] a (xs ++ ys) (h a List.mem_cons_self)
    rw [List.nil_append, cs.decode_nil, List.nil_append] at this
    rw [List.cons_append, this, ih fun b hb => h b (List.mem_cons_of_mem _ hb), List.map_cons, List.cons_append]

/-- ASCII text at the end of a byte sequence is decoded on its own. -/
theorem Charset.decode_append_right (xs : Bytes) {ys : Bytes} (h : ∀ a ∈ ys, a < 128) :
    cs.decode (xs ++ ys) = cs.decode xs ++ ys.map UInt8.toUInt16 := by
  cases ys with
  | nil => simp
  | cons a ys =>
    rw [cs.decode_ascii xs a ys (h a List.mem_cons_self),
      cs.decode_of_ascii fun b hb => h b (List.mem_cons_of_mem _ hb), List.map_cons]

/-- An ASCII character of the decoded text is a byte of the sequence. -/
theorem Charset.mem_decode {c : JChar} (hc : c < 128) : ∀ (n : Nat) (xs : Bytes), xs.length = n → c ∈ cs.decode xs →
    ∃ a ∈ xs, a.toUInt16 = c := by
  intro n
  induction n using Nat.strongRecOn with
  | _ n ih =>
    intro xs hl h
    by_cases hx : ∀ a ∈ xs, 128 ≤ a
    · have := cs.decode_high xs hx c h
      simp only [UInt16.le_iff_toNat_le, UInt16.lt_iff_toNat_lt] at this hc
      omega
    · simp only [not_forall, UInt8.not_le] at hx
      obtain ⟨a, ha, hlt⟩ := hx
      obtain ⟨ys, zs, rfl⟩ := List.append_of_mem ha
      rw [cs.decode_ascii ys a zs hlt, List.mem_append, List.mem_cons] at h
      simp only [List.length_append, List.length_cons] at hl
      rcases h with h | rfl | h
      · obtain ⟨b, hb, hbc⟩ := ih ys.length (by omega) ys rfl h
        exact ⟨b, by simp [hb], hbc⟩
      · exact ⟨a, by simp, rfl⟩
      · obtain ⟨b, hb, hbc⟩ := ih zs.length (by omega) zs rfl h
        exact ⟨b, by simp [hb], hbc⟩

/-- Splitting commutes with decoding. -/
theorem Charset.splitOn_decode {a : UInt8} (ha : a < 128) : ∀ (n : Nat) (xs : Bytes), xs.length = n →
    (cs.decode xs).splitOn a.toUInt16 = (xs.splitOn a).map cs.decode := by
  intro n
  induction n using Nat.strongRecOn with
  | _ n ih =>
    intro xs hl
    by_cases hx : a ∈ xs
    · obtain ⟨ys, zs, rfl⟩ := List.append_of_mem hx
      simp only [List.length_append, List.length_cons] at hl
      rw [cs.decode_ascii ys a zs ha, List.splitOn_append_cons_self, List.splitOn_append_cons_self, List.map_append,
        ih ys.length (by omega) ys rfl, ih zs.length (by omega) zs rfl]
    · have hd : a.toUInt16 ∉ cs.decode xs := by
        intro h
        have hlt : a.toUInt16 < 128 := by
          simpa [UInt16.lt_iff_toNat_lt, UInt8.lt_iff_toNat_lt] using ha
        obtain ⟨b, hb, hba⟩ := cs.mem_decode hlt xs.length xs rfl h
        exact hx (UInt8.toUInt16_inj.1 hba ▸ hb)
      rw [List.splitOn_eq_singleton hx, List.splitOn_eq_singleton hd, List.map_singleton]

end OwonVds.Java
