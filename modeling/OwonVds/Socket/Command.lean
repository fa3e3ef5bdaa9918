import OwonVds.Java.Text

/-!
# The server's analysis of a request

A request is split at `;`; every piece is trimmed and freed of whitespace, and analysed. The binary queries `*ADC?`,
`*LDM?` and `*RDM?` are not answered here: they raise the server's transmit flags (`dealAdcCmds`) and stand for
themselves in the reply, with a `;` of their own. Any other command is looked up in the command tree and handled.
`translation` joins what the analyses return with `;`.

The command tree, the handlers and the data provider are not part of the repository (`CmdFactory`); `δ` is the state
they act on.
-/

namespace OwonVds.Socket

open Java

/-- A Java byte array: fewer than `2^31` bytes. -/
abbrev ByteArr := { buf : Bytes // buf.length < 0x80000000 }

/-- The command tree and the data provider. A node of the tree answers with a string, which may be `null`. -/
structure CmdFactory (κ δ : Type) where
  getKeys : List κ
  getFitPre : κ → JString
  getShortPre : κ → JString
  hasKey : κ → JString → δ → Option κ
  handle : κ → δ → Option JString × δ
  getData : JString → δ → Option ByteArr × δ

/-- The transmit flags of the server. -/
structure Flags where
  onlargeTransmit : Bool
  onDmTransmit : Bool
  isRemoteTransmit : Bool
  deriving DecidableEq, Repr

def Flags.clean : Flags := ⟨false, false, false⟩

def dealAdcCmds (line : JString) (f : Flags) : Bool × Flags :=
  let a := startsWith line (lit "*ADC?")
  let b := startsWith line (lit "*LDM?")
  let c := startsWith line (lit "*RDM?")
  if a then (true, { f with onlargeTransmit := true })
  else if b then (true, { f with onDmTransmit := true, isRemoteTransmit := false })
  else if c then (true, { f with onDmTransmit := true, isRemoteTransmit := true })
  else (false, f)

variable {κ δ : Type} (F : CmdFactory κ δ)

/-- `line.split(":", 3)[1]`, for a line that starts with `:` and so has a second piece. -/
def lineHead (line : JString) : JString := (line.splitOn 0x3A).getD 1 []

def pickOutTrunk (line : JString) : Option κ :=
  let head := if startsWith line (lit ":") then lineHead line else line
  F.getKeys.find? fun ck => startsWith head (F.getFitPre ck) || startsWith head (F.getShortPre ck)

/-- The analysis of a trimmed piece; `none` is `null`. -/
def analyseCmds1 (line : JString) (f : Flags) (d : δ) : Option JString × Flags × δ :=
  let line := removeSpaces line
  match dealAdcCmds line f with
  | (true, f) => (some (line ++ lit ";"), f, d)
  | (false, f) =>
    match (pickOutTrunk F line).bind fun trunk => F.hasKey trunk line d with
    | some node => ((F.handle node d).1, f, (F.handle node d).2)
    | none => (some (lit "CAN NOT ANALYSE THE ORDER"), f, d)

def analyse (line : JString) (f : Flags) (d : δ) : Option JString × Flags × δ := analyseCmds1 F (trim line) f d

/-- The loop of `translation` from piece `i` on; appending `null` appends its name. -/
def translationLoop : Nat → List JString → JString → Flags → δ → JString × Flags × δ
  | _, [], sb, f, d => (sb, f, d)
  | i, p :: ps, sb, f, d =>
    let sb := if i > 0 then sb ++ lit ";" else sb
    let (r, f, d) := analyse F p f d
    translationLoop (i + 1) ps (sb ++ r.getD (lit "null")) f d

def translation (cmd : JString) (f : Flags) (d : δ) : JString × Flags × δ :=
  translationLoop F 0 (split semicolon cmd) [] f d

/-! ## The kinds of request -/

inductive Kind
  | adc | ldm | rdm | text
  deriving DecidableEq, Repr

/-- The kind of an analysed line. -/
def kindOf (line : JString) : Kind :=
  if startsWith line (lit "*ADC?") then .adc
  else if startsWith line (lit "*LDM?") then .ldm
  else if startsWith line (lit "*RDM?") then .rdm
  else .text

/-- What a request of a kind does to the flags. -/
def Flags.mark (f : Flags) : Kind → Flags
  | .adc => { f with onlargeTransmit := true }
  | .ldm => { f with onDmTransmit := true, isRemoteTransmit := false }
  | .rdm => { f with onDmTransmit := true, isRemoteTransmit := true }
  | .text => f

theorem dealAdcCmds_eq (line : JString) (f : Flags) :
    dealAdcCmds line f = (decide (kindOf line ≠ .text), f.mark (kindOf line)) := by
  unfold dealAdcCmds kindOf
  by_cases ha : startsWith line (lit "*ADC?") = true
  · simp [ha, Flags.mark]
  · by_cases hb : startsWith line (lit "*LDM?") = true
    · simp [ha, hb, Flags.mark]
    · by_cases hc : startsWith line (lit "*RDM?") = true
      · simp [ha, hb, hc, Flags.mark]
      · simp [ha, hb, hc, Flags.mark]

/-- A binary line begins with an asterisk. -/
theorem head_of_kind {line : JString} (h : kindOf line ≠ .text) : ∃ t, line = 0x2A :: t := by
  cases line with
  | nil => exact absurd rfl h
  | cons c t =>
    refine ⟨t, ?_⟩
    by_contra hc
    have hc' : ¬ (0x2A : JChar) = c := fun e => hc (by rw [e])
    apply h
    unfold kindOf
    simp [startsWith, lit, hc']

/-! ## The analysis of a piece -/

/-- What the analysis of an analysed line appends to the reply. -/
def replyOf (line : JString) (d : δ) : JString :=
  if kindOf line = .text then
    match (pickOutTrunk F line).bind fun trunk => F.hasKey trunk line d with
    | some node => (F.handle node d).1.getD (lit "null")
    | none => lit "CAN NOT ANALYSE THE ORDER"
  else line ++ lit ";"

/-- The state of the instrument after the analysis of a line. -/
def afterLine (line : JString) (d : δ) : δ :=
  if kindOf line = .text then
    match (pickOutTrunk F line).bind fun trunk => F.hasKey trunk line d with
    | some node => (F.handle node d).2
    | none => d
  else d

theorem analyse_eq (p : JString) (f : Flags) (d : δ) :
    ((analyse F p f d).1.getD (lit "null"), (analyse F p f d).2) =
      (replyOf F (clean p) d, f.mark (kindOf (clean p)), afterLine F (clean p) d) := by
  unfold analyse analyseCmds1 replyOf afterLine
  simp only [← clean.eq_1, dealAdcCmds_eq]
  by_cases hk : kindOf (clean p) = .text
  · simp only [hk, ne_eq, not_true_eq_false, decide_false, if_true]
    cases (pickOutTrunk F (clean p)).bind fun trunk => F.hasKey trunk (clean p) d <;> rfl
  · simp [hk]

/-- What the analyses of the lines append, and the state they leave. -/
def replies : List JString → δ → List JString × δ
  | [], d => ([], d)
  | l :: ls, d => (replyOf F l d :: (replies ls (afterLine F l d)).1, (replies ls (afterLine F l d)).2)

theorem length_replies (ls : List JString) (d : δ) : (replies F ls d).1.length = ls.length := by
  induction ls generalizing d with
  | nil => rfl
  | cons l ls ih => simp [replies, ih]

/-- The reply of lines, with a `;` before every one that is not the first of the request. -/
def joined (i : Nat) : List JString → JString
  | [] => []
  | r :: rs => (if i > 0 then lit ";" else []) ++ r ++ joined (i + 1) rs

theorem joined_succ (i : Nat) (rs : List JString) : joined (i + 1) rs = rs.flatMap (lit ";" ++ ·) := by
  induction rs generalizing i with
  | nil => rfl
  | cons r rs ih => simp [joined, ih]

theorem joined_zero (rs : List JString) : joined 0 rs = (lit ";").intercalate rs := by
  cases rs with
  | nil => rfl
  | cons r rs =>
    simp only [joined, gt_iff_lt, Nat.lt_irrefl, if_false, List.nil_append, joined_succ]
    induction rs generalizing r with
    | nil => simp
    | cons q rs ih => simp [← ih]

theorem translationLoop_eq (ps : List JString) : ∀ (i : Nat) (sb : JString) (f : Flags) (d : δ),
    translationLoop F i ps sb f d = (sb ++ joined i (replies F (ps.map clean) d).1,
      (ps.map fun p => kindOf (clean p)).foldl Flags.mark f, (replies F (ps.map clean) d).2) := by
  induction ps with
  | nil => intro i sb f d; simp [translationLoop, joined, replies]
  | cons p ps ih =>
    intro i sb f d
    have h := analyse_eq F p f d
    rw [Prod.mk.injEq] at h
    have h1 : (analyse F p f d).2 = (f.mark (kindOf (clean p)), afterLine F (clean p) d) := h.2
    simp only [translationLoop, h.1, h1, ih, List.map_cons, List.foldl_cons, replies, joined]
    by_cases hi : i > 0
    · simp [hi]
    · simp [hi]

/-- The lines analysed for a request. -/
def linesOf (cmd : JString) : List JString := (split semicolon cmd).map clean

/-- **The translation of a request**: the replies of its lines joined with `;`, the flags marked line by line. -/
theorem translation_eq (cmd : JString) (f : Flags) (d : δ) :
    translation F cmd f d = ((lit ";").intercalate (replies F (linesOf cmd) d).1,
      ((linesOf cmd).map kindOf).foldl Flags.mark f, (replies F (linesOf cmd) d).2) := by
  unfold translation linesOf
  rw [translationLoop_eq, joined_zero]
  simp [Function.comp_def]

/-! ## The lines of a chunk -/

/-- The lines analysed for a chunk read from a client, which is trimmed and ended with a carriage return. -/
def chunkLines (cs : Charset) (chunk : Bytes) : List JString := linesOf (trim (cs.decode chunk) ++ lit "\r")

theorem chunkLines_eq (cs : Charset) (chunk : Bytes) :
    chunkLines cs chunk = ((cs.decode chunk).splitOn semicolon).map clean := by
  have hl : lit "\r" = [cr] := by decide
  unfold chunkLines linesOf
  rw [hl, pieces_line]

/-- A chunk without `;` is one line. -/
theorem chunkLines_single {cs : Charset} {chunk : Bytes} (h : semicolon ∉ cs.decode chunk) :
    chunkLines cs chunk = [clean (cs.decode chunk)] := by
  rw [chunkLines_eq, List.splitOn_eq_singleton h, List.map_singleton]

theorem chunkLines_ne_nil (cs : Charset) (chunk : Bytes) : chunkLines cs chunk ≠ [] := by
  rw [chunkLines_eq, Ne, List.map_eq_nil_iff]
  exact List.splitOn_ne_nil _ _

/-- No line contains a `;`. -/
theorem semicolon_notMem {cs : Charset} {chunk : Bytes} {line : JString} (h : line ∈ chunkLines cs chunk) :
    semicolon ∉ line := by
  rw [chunkLines_eq] at h
  obtain ⟨p, hp, rfl⟩ := List.mem_map.1 h
  intro hs
  have hs' : semicolon ∈ trim p := by
    unfold clean removeSpaces at hs
    exact (List.mem_filter.1 hs).1
  exact Recut.notMem_of_mem_splitOn hp (mem_of_mem_trim hs')

end OwonVds.Socket
