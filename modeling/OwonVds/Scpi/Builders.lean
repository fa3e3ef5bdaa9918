import OwonVds.Lib.Recut
import OwonVds.Scpi.Connection
import OwonVds.Socket.Framing

/-!
# The builders of command batches

`SCPILink` has ten builders that join commands with `;`: `set_` and `get_` for `meas`, `aquire`, `timebase`, `channel`
and `trigger`. A builder runs through its parameters and appends a command for each that is selected, and the line is
sent with a carriage return and a line feed. A `Builder` carries the proofs that it appends in the order of its
parameters, and that its own texts are printable ASCII without `;`.

The server's trimming and splitting undo the batch (`batch_segments`).
-/

namespace OwonVds.Scpi

open Java

/-- Printable ASCII, and not `;`. -/
def PlainChar (c : Char) : Prop := 0x20 ≤ c.toNat ∧ c.toNat ≤ 0x7E ∧ c ≠ ';'

instance (c : Char) : Decidable (PlainChar c) := inferInstanceAs (Decidable (_ ∧ _ ∧ _))

abbrev PlainStr := { s : Str // ∀ c ∈ s, PlainChar c }

/-- An argument: `None`, or a value with its truth and its text. -/
inductive Arg
  | none
  | value (truthy : Bool) (text : PlainStr)

def Arg.truthy : Arg → Bool
  | .none => false
  | .value b _ => b

/-- A statement of a builder that may append a command, for one parameter. -/
inductive Append
  /-- `if param: command.append(f"{head}{ch}{tail}")`; without a tail, `f"{head}"`. -/
  | ifTrue (param head : String) (tail : Option String)
  /-- `if param != None: command.append(f"{head}{ch}{tail}{param}")`. -/
  | ifGiven (param head : String) (tail : Option String)
  /-- `self.addOrDelete(ch, param, value, command)`. -/
  | addOrDelete (param value : String)
  deriving DecidableEq

def Append.param : Append → String
  | .ifTrue p _ _ => p
  | .ifGiven p _ _ => p
  | .addOrDelete p _ => p

/-- The text of an integer. -/
def decimal (n : Int) : Str := if n < 0 then '-' :: Nat.toDigits 10 n.natAbs else Nat.toDigits 10 n.natAbs

def fstring (head : String) (ch : Int) : Option String → Str
  | none => head.toList
  | some tail => head.toList ++ decimal ch ++ tail.toList

/-- The command that the statement appends, if it does. -/
def Append.command (ch : Int) (args : String → Arg) : Append → Option Str
  | .ifTrue p head tail => if (args p).truthy then some (fstring head ch tail) else none
  | .ifGiven p head tail =>
    match args p with
    | .none => none
    | .value _ text => some (fstring head ch tail ++ text.1)
  | .addOrDelete p value =>
    match args p with
    | .none => none
    | .value true _ => some (fstring ":MEASure" ch (some ":ADD ") ++ value.toList)
    | .value false _ => some (fstring ":MEASure" ch (some ":DELete ") ++ value.toList)

/-- The fixed texts of the statement. -/
def Append.texts : Append → List String
  | .ifTrue _ head tail => head :: tail.toList
  | .ifGiven _ head tail => head :: tail.toList
  | .addOrDelete _ value => [":MEASure", ":ADD ", ":DELete ", value]

/-- The fixed texts are checked by computation. -/
theorem plain_texts {appends : List Append}
    (h : (appends.all fun a => a.texts.all fun t => t.toList.all fun c => decide (PlainChar c)) = true) :
    ∀ a ∈ appends, ∀ t ∈ a.texts, ∀ c ∈ t.toList, PlainChar c := by
  intro a ha t ht c hc
  have ha' := List.all_eq_true.1 h a ha
  have ht' := List.all_eq_true.1 ha' t ht
  exact of_decide_eq_true (List.all_eq_true.1 ht' c hc)

structure Builder where
  /-- The parameters after `ch`, in the order of the declaration. -/
  declared : List String
  appends : List Append
  inOrder : appends.map Append.param = declared
  distinct : declared.Nodup
  plain : ∀ a ∈ appends, ∀ t ∈ a.texts, ∀ c ∈ t.toList, PlainChar c

/-- The commands that a call of the builder selects. -/
def Builder.commands (b : Builder) (ch : Int) (args : String → Arg) : List Str :=
  b.appends.filterMap (Append.command ch args)

/-- The command that a parameter selects, if its argument does. -/
def Builder.selects (b : Builder) (ch : Int) (args : String → Arg) (p : String) : Option Str :=
  (b.appends.find? fun a => a.param = p).bind (Append.command ch args)

/-- `";".join(command)`. -/
def Builder.batch (b : Builder) (ch : Int) (args : String → Arg) : Str := [';'].intercalate (b.commands ch args)

/-- What `__transaction` writes for a command. -/
def written (command : Str) : Bytes := encode (command ++ "\r\n".toList)

/-! ## The builders -/

def setMeas : Builder where
  declared :=
    ["source", "per", "freq", "aver", "max", "min", "vtop", "vbas", "vamp", "pkpk", "cycr", "rt", "ft", "pdut",
      "ndut", "pwid", "nwid", "over", "pres", "rdel", "fdel"]
  appends :=
    [.ifTrue "source" ":MEASure:SOURce CH" (some ""),
      .addOrDelete "per" "PERiod",
      .addOrDelete "freq" "FREQuency",
      .addOrDelete "aver" "AVERage",
      .addOrDelete "max" "MAX",
      .addOrDelete "min" "MIN",
      .addOrDelete "vtop" "VTOP",
      .addOrDelete "vbas" "VBASe",
      .addOrDelete "vamp" "VAMP",
      .addOrDelete "pkpk" "PKPK",
      .addOrDelete "cycr" "CYCRms",
      .addOrDelete "rt" "RTime",
      .addOrDelete "ft" "FTime",
      .addOrDelete "pdut" "PDUTy",
      .addOrDelete "ndut" "NDUTy",
      .addOrDelete "pwid" "PWIDth",
      .addOrDelete "nwid" "NWIDth",
      .addOrDelete "over" "OVERshoot",
      .addOrDelete "pres" "PREShoot",
      .addOrDelete "rdel" "RDELay",
      .addOrDelete "fdel" "FDELay"]
  inOrder := by decide
  distinct := by decide
  plain := plain_texts (by decide +kernel)

def getMeas : Builder where
  declared :=
    ["sour", "per", "freq", "aver", "max", "min", "vtop", "vbas", "vamp", "pkpk", "cycr", "rt", "ft", "pdut",
      "ndut", "pwid", "nwid", "over", "pres", "rdel", "fdel", "recv"]
  appends :=
    [.ifTrue "sour" ":MEASure:SOURce?" none,
      .ifTrue "per" ":MEASure" (some ":PERiod?"),
      .ifTrue "freq" ":MEASure" (some ":FREQuency?"),
      .ifTrue "aver" ":MEASure" (some ":AVERage?"),
      .ifTrue "max" ":MEASure" (some ":MAX?"),
      .ifTrue "min" ":MEASure" (some ":MIN?"),
      .ifTrue "vtop" ":MEASure" (some ":VTOP?"),
      .ifTrue "vbas" ":MEASure" (some ":VBASe?"),
      .ifTrue "vamp" ":MEASure" (some ":VAMP?"),
      .ifTrue "pkpk" ":MEASure" (some ":PKPK?"),
      .ifTrue "cycr" ":MEASure" (some ":CYCRms?"),
      .ifTrue "rt" ":MEASure" (some ":RTime?"),
      .ifTrue "ft" ":MEASure" (some ":FTime?"),
      .ifTrue "pdut" ":MEASure" (some ":PDUTy?"),
      .ifTrue "ndut" ":MEASure" (some ":NDUTy?"),
      .ifTrue "pwid" ":MEASure" (some ":PWIDth?"),
      .ifTrue "nwid" ":MEASure" (some ":NWIDth?"),
      .ifTrue "over" ":MEASure" (some ":OVERshoot?"),
      .ifTrue "pres" ":MEASure" (some ":PREShoot?"),
      .ifTrue "rdel" ":MEASure" (some ":RDELay?"),
      .ifTrue "fdel" ":MEASure" (some ":FDELay?"),
      .ifTrue "recv" ":MEASure" (some ":RECVamp?")]
  inOrder := by decide
  distinct := by decide
  plain := plain_texts (by decide +kernel)

def setAquire : Builder where
  declared := ["type", "aver", "mdep"]
  appends :=
    [.ifGiven "type" ":ACQuire:TYPE " none,
      .ifGiven "aver" ":ACQuire:AVERage " none,
      .ifGiven "mdep" ":ACQuire:MDEPth " none]
  inOrder := by decide
  distinct := by decide
  plain := plain_texts (by decide +kernel)

def getAquire : Builder where
  declared := ["type", "aver", "mdep"]
  appends :=
    [.ifTrue "type" ":ACQuire:TYPE?" none,
      .ifTrue "aver" ":ACQuire:AVERage?" none,
      .ifTrue "mdep" ":ACQuire:MDEPth?" none]
  inOrder := by decide
  distinct := by decide
  plain := plain_texts (by decide +kernel)

def setTimebase : Builder where
  declared := ["scal", "hoff"]
  appends :=
    [.ifGiven "scal" ":TIMebase:SCALe " none,
      .ifGiven "hoff" ":TIMebase:HOFFset " none]
  inOrder := by decide
  distinct := by decide
  plain := plain_texts (by decide +kernel)

def getTimebase : Builder where
  declared := ["scal", "hoff"]
  appends :=
    [.ifTrue "scal" ":TIMebase:SCALe?" none,
      .ifTrue "hoff" ":TIMebase:HOFFset?" none]
  inOrder := by decide
  distinct := by decide
  plain := plain_texts (by decide +kernel)

def setChannel : Builder where
  declared := ["disp", "coup", "prob", "scal", "offs", "inv", "curr"]
  appends :=
    [.ifGiven "disp" ":CHANnel" (some ":DISPlay "),
      .ifGiven "coup" ":CHANnel" (some ":COUPling "),
      .ifGiven "prob" ":CHANnel" (some ":PROBe "),
      .ifGiven "scal" ":CHANnel" (some ":SCALe "),
      .ifGiven "offs" ":CHANnel" (some ":OFFSet "),
      .ifGiven "inv" ":CHANnel" (some ":INVerse "),
      .ifGiven "curr" ":CHANnel" (some ":CURRent ")]
  inOrder := by decide
  distinct := by decide
  plain := plain_texts (by decide +kernel)

def getChannel : Builder where
  declared := ["disp", "coup", "prob", "scal", "offs", "inv", "curr", "hard"]
  appends :=
    [.ifTrue "disp" ":CHANnel" (some ":DISPlay?"),
      .ifTrue "coup" ":CHANnel" (some ":COUPling?"),
      .ifTrue "prob" ":CHANnel" (some ":PROBe?"),
      .ifTrue "scal" ":CHANnel" (some ":SCALe?"),
      .ifTrue "offs" ":CHANnel" (some ":OFFSet?"),
      .ifTrue "inv" ":CHANnel" (some ":INVerse?"),
      .ifTrue "curr" ":CHANnel" (some ":CURRent?"),
      .ifTrue "hard" ":CHANnel" (some ":HARDfreq?")]
  inOrder := by decide
  distinct := by decide
  plain := plain_texts (by decide +kernel)

def setTrigger : Builder where
  declared :=
    ["type", "mode", "sing", "sing_edge_sour", "sing_edge_slop", "sing_edge_lev", "sing_video_sour",
      "sing_video_modu", "sing_video_sync", "sing_video_lnum", "alt", "alt_edge_sour", "alt_edge_slop",
      "alt_edge_lev", "alt_video_sour", "alt_video_modu", "alt_video_sync", "alt_video_lnum"]
  appends :=
    [.ifGiven "type" ":TRIGger:TYPE " none,
      .ifGiven "mode" ":TRIGger:MODE " none,
      .ifGiven "sing" ":TRIGger:SINGle " none,
      .ifGiven "sing_edge_sour" ":TRIGger:SINGle:EDGE:SOURce " none,
      .ifGiven "sing_edge_slop" ":TRIGger:SINGle:EDGE:SLOPe " none,
      .ifGiven "sing_edge_lev" ":TRIGger:SINGleEDGE:LEVel " none,
      .ifGiven "sing_video_sour" ":TRIGger:SINGle:VIDeo:SOURce " none,
      .ifGiven "sing_video_modu" ":TRIGger:SINGle:VIDeo:MODU " none,
      .ifGiven "sing_video_sync" ":TRIGger:SINGle:VIDeo:SYNC " none,
      .ifGiven "sing_video_lnum" ":TRIGger:SINGle:VIDeo:LNUM " none,
      .ifGiven "alt" ":TRIGger:ALT " none,
      .ifGiven "alt_edge_sour" ":TRIGger:ALT:EDGE:SOURce " none,
      .ifGiven "alt_edge_slop" ":TRIGger:ALT:EDGE:SLOPe " none,
      .ifGiven "alt_edge_lev" ":TRIGger:ALT:EDGE:LEVel " none,
      .ifGiven "alt_video_sour" ":TRIGger:ALT:VIDeo:SOURce " none,
      .ifGiven "alt_video_modu" ":TRIGger:ALT:VIDeo:MODU " none,
      .ifGiven "alt_video_sync" ":TRIGger:ALT:VIDeo:SYNC " none,
      .ifGiven "alt_video_lnum" ":TRIGger:ALT:VIDeo:LNUM " none]
  inOrder := by decide
  distinct := by decide
  plain := plain_texts (by decide +kernel)

def getTrigger : Builder where
  declared :=
    ["type", "mode", "sing", "sing_edge_sour", "sing_edge_slop", "sing_edge_lev", "sing_video_sour",
      "sing_video_modu", "sing_video_sync", "sing_video_lnum", "alt", "alt_edge_sour", "alt_edge_slop",
      "alt_edge_lev", "alt_video_sour", "alt_video_modu", "alt_video_sync", "alt_video_lnum"]
  appends :=
    [.ifTrue "type" ":TRIGger:TYPE?" none,
      .ifTrue "mode" ":TRIGger:MODE?" none,
      .ifTrue "sing" ":TRIGger:SINGle?" none,
      .ifTrue "sing_edge_sour" ":TRIGger:SINGle:EDGE:SOURce?" none,
      .ifTrue "sing_edge_slop" ":TRIGger:SINGle:EDGE:SLOPe?" none,
      .ifTrue "sing_edge_lev" ":TRIGger:SINGleEDGE:LEVel?" none,
      .ifTrue "sing_video_sour" ":TRIGger:SINGle:VIDeo:SOURce?" none,
      .ifTrue "sing_video_modu" ":TRIGger:SINGle:VIDeo:MODU?" none,
      .ifTrue "sing_video_sync" ":TRIGger:SINGle:VIDeo:SYNC?" none,
      .ifTrue "sing_video_lnum" ":TRIGger:SINGle:VIDeo:LNUM?" none,
      .ifTrue "alt" ":TRIGger:ALT?" none,
      .ifTrue "alt_edge_sour" ":TRIGger:ALT:EDGE:SOURce?" none,
      .ifTrue "alt_edge_slop" ":TRIGger:ALT:EDGE:SLOPe?" none,
      .ifTrue "alt_edge_lev" ":TRIGger:ALT:EDGE:LEVel?" none,
      .ifTrue "alt_video_sour" ":TRIGger:ALT:VIDeo:SOURce?" none,
      .ifTrue "alt_video_modu" ":TRIGger:ALT:VIDeo:MODU?" none,
      .ifTrue "alt_video_sync" ":TRIGger:ALT:VIDeo:SYNC?" none,
      .ifTrue "alt_video_lnum" ":TRIGger:ALT:VIDeo:LNUM?" none]
  inOrder := by decide
  distinct := by decide
  plain := plain_texts (by decide +kernel)

/-! ## Commands and parameters -/

theorem Builder.find_param (b : Builder) {a : Append} (ha : a ∈ b.appends) :
    (b.appends.find? fun a' => a'.param = a.param) = some a := by
  have hn : (b.appends.map Append.param).Nodup := b.inOrder ▸ b.distinct
  cases hf : b.appends.find? fun a' => a'.param = a.param with
  | none => simpa using List.find?_eq_none.1 hf a ha
  | some a' =>
    have hp : a'.param = a.param := by simpa using List.find?_some hf
    rw [List.inj_on_of_nodup_map hn (List.mem_of_find?_eq_some hf) ha hp]

/-- **One command for each parameter that selects one**, in the order of the declaration. -/
theorem Builder.commands_eq (b : Builder) (ch : Int) (args : String → Arg) :
    b.commands ch args = b.declared.filterMap (b.selects ch args) := by
  rw [← b.inOrder, List.filterMap_map]
  refine List.filterMap_congr fun a ha => ?_
  rw [Function.comp_apply, Builder.selects, b.find_param ha, Option.bind_some]

/-! ## Commands are plain -/

theorem plain_decimal (n : Int) : ∀ c ∈ decimal n, PlainChar c := by
  have hdigit : ∀ c ∈ Nat.toDigits 10 n.natAbs, PlainChar c := by
    intro c hc
    have hd := Nat.isDigit_of_mem_toDigits (by decide) (by decide) hc
    simp only [Char.isDigit, Bool.and_eq_true, decide_eq_true_eq] at hd
    have h1 : 48 ≤ c.toNat := UInt32.le_iff_toNat_le.1 hd.1
    have h2 : c.toNat ≤ 57 := UInt32.le_iff_toNat_le.1 hd.2
    refine ⟨by omega, by omega, ?_⟩
    rintro rfl
    exact absurd h2 (by decide)
  intro c hc
  unfold decimal at hc
  split at hc
  · rcases List.mem_cons.1 hc with rfl | hc
    · decide
    · exact hdigit c hc
  · exact hdigit c hc

theorem plain_fstring {head : String} {tail : Option String}
    (h : ∀ t ∈ head :: tail.toList, ∀ c ∈ t.toList, PlainChar c) (ch : Int) :
    ∀ c ∈ fstring head ch tail, PlainChar c := by
  intro c hc
  cases tail with
  | none => exact h head (by simp) c hc
  | some tail =>
    unfold fstring at hc
    rcases List.mem_append.1 hc with hc | hc
    · rcases List.mem_append.1 hc with hc | hc
      · exact h head (by simp) c hc
      · exact plain_decimal ch c hc
    · exact h tail (by simp) c hc

/-- Every command of a builder is printable ASCII without `;`. -/
theorem Builder.plain_commands (b : Builder) (ch : Int) (args : String → Arg) :
    ∀ s ∈ b.commands ch args, ∀ c ∈ s, PlainChar c := by
  intro s hs
  obtain ⟨a, ha, hcmd⟩ := List.mem_filterMap.1 hs
  have hplain := b.plain a ha
  cases a with
  | ifTrue p head tail =>
    simp only [Append.command] at hcmd
    split at hcmd
    · cases hcmd
      exact plain_fstring hplain ch
    · cases hcmd
  | ifGiven p head tail =>
    simp only [Append.command] at hcmd
    split at hcmd
    · cases hcmd
    · rename_i text _
      cases hcmd
      intro c hc
      rcases List.mem_append.1 hc with hc | hc
      · exact plain_fstring hplain ch c hc
      · exact text.2 c hc
  | addOrDelete p value =>
    have hvalue : ∀ c ∈ value.toList, PlainChar c := hplain value (by simp [Append.texts])
    have hhead : ∀ tail ∈ [":ADD ", ":DELete "], ∀ c ∈ fstring ":MEASure" ch (some tail), PlainChar c := by
      intro tail htail
      refine plain_fstring (fun t ht => hplain t ?_) ch
      simp only [Option.toList_some, List.mem_cons, List.not_mem_nil, or_false] at ht htail
      rcases ht with rfl | rfl
      · simp [Append.texts]
      · rcases htail with rfl | rfl <;> simp [Append.texts]
    simp only [Append.command] at hcmd
    split at hcmd
    · cases hcmd
    · cases hcmd
      intro c hc
      rcases List.mem_append.1 hc with hc | hc
      · exact hhead ":ADD " (by simp) c hc
      · exact hvalue c hc
    · cases hcmd
      intro c hc
      rcases List.mem_append.1 hc with hc | hc
      · exact hhead ":DELete " (by simp) c hc
      · exact hvalue c hc

/-! ## What the server makes of a batch -/

/-- The Java string of an ASCII text. -/
def javaString (s : Str) : JString := s.map fun c => UInt16.ofNat c.toNat

/-- The text without its whitespace. -/
def stripped (s : Str) : JString := removeSpaces (javaString s)

@[simp] theorem javaString_append (s t : Str) : javaString (s ++ t) = javaString s ++ javaString t := List.map_append

/-- ASCII arrives as it was written. -/
theorem decode_encode_ascii (cs : Charset) {s : Str} (h : ∀ c ∈ s, c.toNat < 128) :
    cs.decode (encode s) = javaString s := by
  have hbyte : ∀ n, n < 128 → (UInt8.ofNat n).toUInt16 = UInt16.ofNat n ∧ UInt8.ofNat n < 128 := by decide
  rw [encode_ascii h, cs.decode_of_ascii]
  · unfold javaString
    rw [List.map_map]
    exact List.map_congr_left fun c hc => (hbyte _ (h c hc)).1
  · intro a ha
    obtain ⟨c, hc, rfl⟩ := List.mem_map.1 ha
    exact (hbyte _ (h c hc)).2

/-- Of a text whose only blanks are whitespace, trimming loses nothing that the removal would keep. -/
theorem clean_of_spaces {s : JString} (h : ∀ c ∈ s, blank c = true → isSpace c = true) : clean s = removeSpaces s := by
  obtain ⟨b, b', hs, hb, hb'⟩ := trim_spec s
  have none : ∀ x : JString, (∀ c ∈ x, c ∈ s ∧ blank c = true) → removeSpaces x = [] := by
    intro x hx
    unfold removeSpaces
    refine List.filter_eq_nil_iff.2 fun c hc => ?_
    simp [h c (hx c hc).1 (hx c hc).2]
  have hbs : ∀ c ∈ b, c ∈ s ∧ blank c = true := fun c hc => ⟨by rw [hs]; simp [hc], hb c hc⟩
  have hbs' : ∀ c ∈ b', c ∈ s ∧ blank c = true := fun c hc => ⟨by rw [hs]; simp [hc], hb' c hc⟩
  unfold clean
  conv_rhs => rw [hs]
  have happ : ∀ x y : JString, removeSpaces (x ++ y) = removeSpaces x ++ removeSpaces y :=
    fun x y => List.filter_append ..
  rw [happ, happ, none b hbs, none b' hbs', List.nil_append, List.append_nil]

theorem plain_java {s : Str} (h : ∀ c ∈ s, PlainChar c) :
    semicolon ∉ javaString s ∧ ∀ c ∈ javaString s, blank c = true → isSpace c = true := by
  have hchar : ∀ n, 0x20 ≤ n → n ≤ 0x7E → (UInt16.ofNat n = semicolon → n = 0x3B) ∧
      (blank (UInt16.ofNat n) = true → isSpace (UInt16.ofNat n) = true) := by
    intro n h1 h2
    have : ∀ m, m < 0x7F → 0x20 ≤ m → (UInt16.ofNat m = semicolon → m = 0x3B) ∧
        (blank (UInt16.ofNat m) = true → isSpace (UInt16.ofNat m) = true) := by decide
    exact this n (by omega) h1
  constructor
  · intro hs
    obtain ⟨c, hc, heq⟩ := List.mem_map.1 hs
    obtain ⟨h1, h2, hne⟩ := h c hc
    have := (hchar _ h1 h2).1 heq
    apply hne
    rw [← Char.ofNat_toNat c, this]
  · intro c hc hb
    obtain ⟨a, ha, rfl⟩ := List.mem_map.1 hc
    obtain ⟨h1, h2, -⟩ := h a ha
    exact (hchar _ h1 h2).2 hb

theorem javaString_intercalate (ss : List Str) :
    javaString ([';'].intercalate ss) = [semicolon].intercalate (ss.map javaString) := by
  induction ss with
  | nil => rfl
  | cons s ss ih =>
    cases ss with
    | nil => simp
    | cons t ss =>
      simp only [List.map_cons] at ih ⊢
      rw [List.intercalate_cons_cons, javaString_append, javaString_append, ih, List.intercalate_cons_cons]
      rfl

theorem forall_intercalate {P : Char → Prop} {sep : Str} (hsep : ∀ c ∈ sep, P c) {ss : List Str}
    (h : ∀ s ∈ ss, ∀ c ∈ s, P c) : ∀ c ∈ sep.intercalate ss, P c := by
  induction ss with
  | nil => simp
  | cons s ss ih =>
    have ih' := ih fun t ht => h t (List.mem_cons_of_mem _ ht)
    cases ss with
    | nil => simpa using h s (by simp)
    | cons t ss =>
      intro c hc
      rw [List.intercalate_cons_cons] at hc
      rcases List.mem_append.1 hc with hc | hc
      · rcases List.mem_append.1 hc with hc | hc
        · exact h s (by simp) c hc
        · exact hsep c hc
      · exact ih' c hc

/-- A line of plain commands, read as one chunk: the server analyses each without its whitespace. -/
theorem chunkLines_written (cs : Charset) {commands : List Str} (hplain : ∀ s ∈ commands, ∀ c ∈ s, PlainChar c)
    (hne : commands ≠ []) :
    Socket.chunkLines cs (written ([';'].intercalate commands)) = commands.map stripped := by
  have hascii : ∀ c ∈ [';'].intercalate commands ++ "\r\n".toList, c.toNat < 128 := by
    intro c hc
    rcases List.mem_append.1 hc with hc | hc
    · refine forall_intercalate (P := fun c => c.toNat < 128) (List.all_iff_forall_prop.1 (by decide)) ?_ c hc
      intro s hs c hc
      have := (hplain s hs c hc).2.1
      omega
    · exact (List.all_iff_forall_prop.1 (by decide) : ∀ c ∈ "\r\n".toList, c.toNat < 128) c hc
  have hdecode : cs.decode (written ([';'].intercalate commands)) =
      [semicolon].intercalate (commands.map javaString) ++ javaString "\r\n".toList := by
    rw [written, decode_encode_ascii cs hascii, javaString_append, javaString_intercalate]
  have hcrlf : ∀ c ∈ javaString "\r\n".toList, blank c = true := List.all_eq_true.1 (by decide)
  rw [Socket.chunkLines_eq, hdecode, clean_neglects.append_blank hcrlf, List.splitOn_intercalate]
  · rw [List.map_map]
    exact List.map_congr_left fun s hs => clean_of_spaces (plain_java (hplain s hs)).2
  · intro l hl
    obtain ⟨s, hs, rfl⟩ := List.mem_map.1 hl
    exact (plain_java (hplain s hs)).1
  · simpa using hne

/-- **The server's trimming and splitting undo the batch**: of the line of a builder that selects a command, read as one
chunk, it analyses the commands selected, each without its whitespace; that is one segment for each parameter that
selects a command, in the order of the declaration. -/
theorem batch_segments (cs : Charset) (b : Builder) (ch : Int) (args : String → Arg) (hsel : b.commands ch args ≠ [])
    (chunk : Socket.Chunk) (hchunk : chunk.1 = written (b.batch ch args)) :
    Socket.analysed cs [chunk] = (b.commands ch args).map stripped ∧
      Socket.analysed cs [chunk] = b.declared.filterMap fun p => (b.selects ch args p).map stripped := by
  have hline : Socket.analysed cs [chunk] = Socket.chunkLines cs chunk.1 := by
    unfold Socket.analysed Socket.commandOf Socket.chunkLines
    rw [List.flatMap_singleton, List.take_length]
  have hall : Socket.analysed cs [chunk] = (b.commands ch args).map stripped := by
    rw [hline, hchunk, Builder.batch]
    exact chunkLines_written cs (b.plain_commands ch args) hsel
  refine ⟨hall, ?_⟩
  rw [hall, b.commands_eq, List.map_filterMap]

/-- Two queries of `get_aquire`. -/
def typeAndDepth (p : String) : Arg :=
  if p = "aver" then .none else .value true ⟨"True".toList, List.all_iff_forall_prop.1 (by decide)⟩

theorem batch_segments_aquire : ∃ chunk : Socket.Chunk, chunk.1 = written (getAquire.batch 1 typeAndDepth) ∧
    Socket.analysed latin1 [chunk] = [lit ":ACQuire:TYPE?", lit ":ACQuire:MDEPth?"] := by
  refine ⟨⟨written (getAquire.batch 1 typeAndDepth), by decide +kernel⟩, rfl, ?_⟩
  rw [(batch_segments latin1 getAquire 1 typeAndDepth (by decide +kernel) _ rfl).2]
  decide +kernel

end OwonVds.Scpi
