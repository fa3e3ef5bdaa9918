import OwonVds.Java.Text

/-!
# The client's connection

`TCPConnection` writes text in UTF-8 and reads answers. A read takes a line, strips the whitespace at its end, and looks
at its first byte: after `#` stand four bytes of a length, and as many bytes are read as the answer; anything else is
the answer itself, as text.

The stream reader returns the bytes up to and including the first line feed (`readline`), or as many bytes as it was
asked for (`readexactly`).
-/

namespace OwonVds.Scpi

open Java (Bytes)

/-- A Python string. -/
abbrev Str := List Char

inductive PyError
  | indexError | unicodeDecodeError | incompleteReadError
  deriving DecidableEq, Repr

/-- What a read returns. -/
inductive Value
  | text (s : Str)
  | bytes (b : Bytes)
  deriving DecidableEq

/-- `str.encode()`. -/
def encode (s : Str) : Bytes := s.flatMap String.utf8EncodeChar

/-- `bytes.decode()`. -/
def decode (b : Bytes) : Option Str := b.toByteArray.utf8Decode?.map Array.toList

def lf : UInt8 := 0x0A

/-- The bytes up to and including the first line feed, and what follows. -/
def readline (s : Bytes) : Bytes × Bytes :=
  (s.takeWhile (· != lf) ++ (s.dropWhile (· != lf)).take 1, (s.dropWhile (· != lf)).drop 1)

/-- What `bytes.rstrip` strips. -/
def isWhitespace (a : UInt8) : Bool := a == 0x20 || a == 0x09 || a == 0x0A || a == 0x0B || a == 0x0C || a == 0x0D

def rstrip (b : Bytes) : Bytes := b.rdropWhile isWhitespace

/-- `int.from_bytes(b, "big")`. -/
def fromBytes (b : Bytes) : Nat := b.foldl (fun n a => 256 * n + a.toNat) 0

def readexactly (n : Nat) (s : Bytes) : Option (Bytes × Bytes) :=
  if n ≤ s.length then some (s.take n, s.drop n) else none

/-- What the line of an answer says: the length of the bytes to read, or the text. -/
inductive Header
  | size (n : Nat)
  | text (s : Str)
  deriving DecidableEq

/-- `read`, from the line on. -/
def header (line : Bytes) : Except PyError Header :=
  match rstrip line with
  | [] => .error .indexError
  | a :: data =>
    if a = 35 then .ok (.size (fromBytes (data.take 4)))
    else match decode (a :: data) with
      | some s => .ok (.text s)
      | none => .error .unicodeDecodeError

/-- `TCPConnection.read`: the result, and the stream it leaves. -/
def read (s : Bytes) : Except PyError Value × Bytes :=
  let (line, s) := readline s
  match header line with
  | .error e => (.error e, s)
  | .ok (.text t) => (.ok (.text t), s)
  | .ok (.size n) =>
    match readexactly n s with
    | some (b, s) => (.ok (.bytes b), s)
    | none => (.error .incompleteReadError, s)

/-- A read that returns. -/
def readOk (s : Bytes) : Option (Value × Bytes) :=
  match read s with
  | (.ok v, s) => some (v, s)
  | (.error _, _) => none

/-! ## Lines -/

/-- A line that ends at its only line feed. -/
theorem readline_line {b : Bytes} (hb : lf ∉ b) (s : Bytes) : readline (b ++ lf :: s) = (b ++ [lf], s) := by
  have ht : ∀ a ∈ b, (a != lf) = true := by
    intro a ha
    simp only [bne_iff_ne]
    rintro rfl
    exact hb ha
  unfold readline
  rw [List.takeWhile_append_of_pos ht, List.dropWhile_append_of_pos ht]
  simp

theorem rstrip_concat {b : Bytes} {a : UInt8} (ha : isWhitespace a = true) : rstrip (b ++ [a]) = rstrip b :=
  List.rdropWhile_concat_pos _ _ _ ha

/-- A byte that is not whitespace stays, and shields what is before it. -/
theorem rstrip_cons {a : UInt8} (ha : isWhitespace a = false) (b : Bytes) : rstrip (a :: b) = a :: rstrip b := by
  induction b using List.reverseRecOn with
  | nil =>
    show ([] ++ [a] : Bytes).rdropWhile isWhitespace = _
    rw [List.rdropWhile_concat_neg _ _ _ (by simp [ha])]
    rfl
  | append_singleton b c ih =>
    cases hc : isWhitespace c with
    | true => rw [← List.cons_append, rstrip_concat hc, rstrip_concat hc, ih]
    | false =>
      unfold rstrip
      rw [← List.cons_append, List.rdropWhile_concat_neg _ _ _ (by simp [hc]),
        List.rdropWhile_concat_neg _ _ _ (by simp [hc])]
      rfl

theorem rstrip_isPrefix (b : Bytes) : rstrip b <+: b := List.rdropWhile_prefix _ _

/-- Bytes that do not end in whitespace are not stripped. -/
theorem rstrip_self {b : Bytes} (hb : ∀ a, b.getLast? = some a → isWhitespace a = false) : rstrip b = b := by
  unfold rstrip
  refine List.rdropWhile_eq_self_iff.2 fun hne => ?_
  rw [hb _ (List.getLast?_eq_getLast_of_ne_nil hne)]
  simp

/-! ## Text -/

theorem decode_encode (s : Str) : decode (encode s) = some s := by
  have h : (encode s).toByteArray = s.utf8Encode := rfl
  unfold decode
  rw [h, List.utf8Decode?_utf8Encode]
  rfl

/-- ASCII is encoded byte by byte. -/
theorem encode_ascii {s : Str} (h : ∀ c ∈ s, c.toNat < 128) : encode s = s.map fun c => UInt8.ofNat c.toNat := by
  induction s with
  | nil => rfl
  | cons c s ih =>
    have hc : c.utf8Size = 1 := by
      rw [Char.utf8Size_eq_one_iff, UInt32.le_iff_toNat_le]
      have := h c List.mem_cons_self
      show c.toNat ≤ 127
      omega
    have := ih fun c hc => h c (List.mem_cons_of_mem _ hc)
    unfold encode at this ⊢
    rw [List.flatMap_cons, this, String.utf8EncodeChar_eq_singleton hc]
    rfl

/-- The line feed is the only character with this byte in its encoding. -/
theorem count_lf_utf8EncodeChar (c : Char) : (String.utf8EncodeChar c).count lf = if c = '\n' then 1 else 0 := by
  split_ifs with hc
  · subst hc
    decide
  · apply List.count_eq_zero.2
    have hv : c.val.toNat ≠ 10 := fun h => hc (Char.ext (UInt32.toNat_inj.1 h))
    unfold String.utf8EncodeChar lf
    simp only
    -- the bytes of a longer encoding are 128 and more
    split_ifs <;> simp only [List.mem_cons, List.not_mem_nil, or_false, ← UInt8.toNat_inj, UInt8.toNat_ofNat',
      UInt8.reduceToNat] <;> omega

theorem count_lf_encode (s : Str) : (encode s).count lf = s.count '\n' := by
  induction s with
  | nil => rfl
  | cons c s ih =>
    unfold encode at ih ⊢
    rw [List.flatMap_cons, List.count_append, ih, count_lf_utf8EncodeChar, List.count_cons, Nat.add_comm]
    simp only [beq_iff_eq]

/-- An answer in text. -/
theorem read_text {s : Str} {t : Bytes} (hlf : lf ∉ encode s) (hne : s ≠ []) (hhash : (encode s).head? ≠ some 35)
    (hlast : ∀ a, (encode s).getLast? = some a → isWhitespace a = false) :
    read (encode s ++ lf :: t) = (.ok (.text s), t) := by
  have hh : header (encode s ++ [lf]) = .ok (.text s) := by
    unfold header
    rw [rstrip_concat (by decide), rstrip_self hlast]
    have hd := decode_encode s
    cases he : encode s with
    | nil =>
      rw [he] at hd
      cases s with
      | nil => exact absurd rfl hne
      | cons c s =>
        unfold encode at he
        rw [List.flatMap_cons, List.append_eq_nil_iff] at he
        exact absurd he.1 String.utf8EncodeChar_ne_nil
    | cons a b =>
      rw [he] at hd hhash
      have ha : a ≠ 35 := by
        rintro rfl
        exact hhash rfl
      simp only [ha, if_false, hd]
  unfold read
  rw [readline_line hlf]
  simp only [hh]

end OwonVds.Scpi
