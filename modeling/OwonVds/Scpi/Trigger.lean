import OwonVds.Scpi.Builders

/-!
# The commands for the single and the alternate trigger

`set_trigger` and `get_trigger` each hold two lists of eight commands, for the single and for the alternate trigger,
which are meant to differ in their path only: `:TRIGger:SINGle` and `:TRIGger:ALT`. The lists are compared setting by
setting (`setTrigger_appends`, `getTrigger_appends`): they agree, but for the level of the edge, where a colon is
missing behind the path of the single trigger, in both builders.

So the two lines are parallel exactly when no level is given (`trigger_parallel_iff`), and a query is always the header
of the command that sets, with a question mark.
-/

namespace OwonVds.Scpi

/-! ## Arguments of any text -/

/-- The truth and the text of an argument, which may have any characters; `none` is `None`. -/
abbrev AnyArg := Option (Bool × Str)

def Arg.any : Arg → AnyArg
  | .none => .none
  | .value b text => some (b, text.1)

/-- The command that the statement appends, if it does. -/
def Append.commandOf (ch : Int) (args : String → AnyArg) : Append → Option Str
  | .ifTrue p head tail => if ((args p).map Prod.fst).getD false then some (fstring head ch tail) else none
  | .ifGiven p head tail => (args p).map fun v => fstring head ch tail ++ v.2
  | .addOrDelete p value => (args p).map fun v =>
      fstring ":MEASure" ch (some (if v.1 then ":ADD " else ":DELete ")) ++ value.toList

def Builder.commandsOf (b : Builder) (ch : Int) (args : String → AnyArg) : List Str :=
  b.appends.filterMap (Append.commandOf ch args)

/-- `";".join(command)`. -/
def lineOf (commands : List Str) : Str := [';'].intercalate commands

theorem Append.command_eq (ch : Int) (args : String → Arg) (a : Append) :
    a.command ch args = a.commandOf ch fun p => (args p).any := by
  cases a with
  | ifTrue p head tail =>
    have htruth : (((args p).any).map Prod.fst).getD false = (args p).truthy := by
      cases args p <;> rfl
    simp only [Append.command, Append.commandOf, htruth]
  | ifGiven p head tail =>
    simp only [Append.command, Append.commandOf]
    cases args p <;> rfl
  | addOrDelete p value =>
    simp only [Append.command, Append.commandOf]
    cases args p with
    | none => rfl
    | value b text => cases b <;> rfl

/-- On plain texts these are the lines of the builders. -/
theorem Builder.batch_eq (b : Builder) (ch : Int) (args : String → Arg) :
    b.batch ch args = lineOf (b.commandsOf ch fun p => (args p).any) := by
  have : Append.command ch args = Append.commandOf ch fun p => (args p).any := funext (Append.command_eq ch args)
  unfold Builder.batch Builder.commands Builder.commandsOf lineOf
  rw [this]

/-! ## The settings of a trigger -/

/-- What both triggers have a command for. -/
inductive Setting
  | mode | edgeSour | edgeSlop | edgeLev | videoSour | videoModu | videoSync | videoLnum
  deriving DecidableEq, Repr

/-- In the order of the parameters. -/
def settings : List Setting := [.mode, .edgeSour, .edgeSlop, .edgeLev, .videoSour, .videoModu, .videoSync, .videoLnum]

/-- The parameter of the single trigger. -/
def Setting.sing : Setting → String
  | .mode => "sing"
  | .edgeSour => "sing_edge_sour"
  | .edgeSlop => "sing_edge_slop"
  | .edgeLev => "sing_edge_lev"
  | .videoSour => "sing_video_sour"
  | .videoModu => "sing_video_modu"
  | .videoSync => "sing_video_sync"
  | .videoLnum => "sing_video_lnum"

/-- The parameter of the alternate trigger. -/
def Setting.alt : Setting → String
  | .mode => "alt"
  | .edgeSour => "alt_edge_sour"
  | .edgeSlop => "alt_edge_slop"
  | .edgeLev => "alt_edge_lev"
  | .videoSour => "alt_video_sour"
  | .videoModu => "alt_video_modu"
  | .videoSync => "alt_video_sync"
  | .videoLnum => "alt_video_lnum"

/-- What follows the path in the header. -/
def Setting.tail : Setting → String
  | .mode => ""
  | .edgeSour => ":EDGE:SOURce"
  | .edgeSlop => ":EDGE:SLOPe"
  | .edgeLev => ":EDGE:LEVel"
  | .videoSour => ":VIDeo:SOURce"
  | .videoModu => ":VIDeo:MODU"
  | .videoSync => ":VIDeo:SYNC"
  | .videoLnum => ":VIDeo:LNUM"

def alternatePath : String := ":TRIGger:ALT"

def singlePath : String := ":TRIGger:SINGle"

def Setting.altHeader (x : Setting) : String := alternatePath ++ x.tail

/-- The header of the single trigger; the one of the level has lost a colon. -/
def Setting.singHeader (x : Setting) : String := singlePath ++ if x = .edgeLev then "EDGE:LEVel" else x.tail

/-- The statements of `set_trigger`. -/
theorem setTrigger_appends :
    setTrigger.appends =
      [.ifGiven "type" ":TRIGger:TYPE " none, .ifGiven "mode" ":TRIGger:MODE " none] ++
      settings.map (fun x => .ifGiven x.sing (x.singHeader ++ " ") none) ++
      settings.map (fun x => .ifGiven x.alt (x.altHeader ++ " ") none) := by
  decide +kernel

/-- The statements of `get_trigger`. -/
theorem getTrigger_appends :
    getTrigger.appends =
      [.ifTrue "type" ":TRIGger:TYPE?" none, .ifTrue "mode" ":TRIGger:MODE?" none] ++
      settings.map (fun x => .ifTrue x.sing (x.singHeader ++ "?") none) ++
      settings.map (fun x => .ifTrue x.alt (x.altHeader ++ "?") none) := by
  decide +kernel

/-! ## Arguments of one trigger only -/

/-- The arguments where those of one trigger are assigned, and all others have the default. -/
def assign (name : Setting → String) (default : AnyArg) (v : Setting → AnyArg) (p : String) : AnyArg :=
  ((settings.find? fun x => name x == p).map v).getD default

variable {default : AnyArg} {v : Setting → AnyArg}

theorem assign_sing (x : Setting) : assign Setting.sing default v x.sing = v x := by
  cases x <;> rfl

theorem assign_alt (x : Setting) : assign Setting.alt default v x.alt = v x := by
  cases x <;> rfl

theorem assign_sing_alt (x : Setting) : assign Setting.sing default v x.alt = default := by
  cases x <;> rfl

theorem assign_alt_sing (x : Setting) : assign Setting.alt default v x.sing = default := by
  cases x <;> rfl

/-- The command for a setting, of its header and of the rest, if there is one. -/
def commandWith (header : Setting → String) (rest : Setting → Option Str) (x : Setting) : Option Str :=
  (rest x).map fun r => (header x).toList ++ r

/-- The commands for the settings. -/
def commandsWith (header : Setting → String) (rest : Setting → Option Str) : List Str :=
  settings.filterMap (commandWith header rest)

/-- The values of the settings, as the rest of the commands. -/
def valueRest (v : Setting → Option Str) (x : Setting) : Option Str := (v x).map fun t => ' ' :: t

/-- The selected settings, as the rest of the queries. -/
def queryRest (sel : Setting → Bool) (x : Setting) : Option Str := if sel x then some ['?'] else none

/-- A value given by the caller. -/
def given (v : Setting → Option Str) (x : Setting) : AnyArg := (v x).map fun t => (true, t)

/-- A flag given by the caller. -/
def flag (b : Bool) : AnyArg := some (b, (if b then "True" else "False").toList)

section

variable {b : Builder} {fixed : List Append} {S A : Setting → Append} {ch : Int} {args : String → AnyArg}
  {header : Setting → String} {rest : Setting → Option Str}

theorem commandsOf_split (h : b.appends = fixed ++ settings.map S ++ settings.map A) :
    b.commandsOf ch args = fixed.filterMap (Append.commandOf ch args) ++
      settings.filterMap (fun x => (S x).commandOf ch args) ++ settings.filterMap fun x => (A x).commandOf ch args := by
  unfold Builder.commandsOf
  rw [h, List.filterMap_append, List.filterMap_append, List.filterMap_map, List.filterMap_map]
  rfl

/-- Where only the first group of statements appends. -/
theorem commandsOf_first (h : b.appends = fixed ++ settings.map S ++ settings.map A)
    (hfixed : ∀ a ∈ fixed, a.commandOf ch args = none) (hA : ∀ x, (A x).commandOf ch args = none)
    (hS : ∀ x, (S x).commandOf ch args = commandWith header rest x) :
    b.commandsOf ch args = commandsWith header rest := by
  rw [commandsOf_split h, List.filterMap_eq_nil_iff.2 hfixed, List.filterMap_eq_nil_iff.2 fun x _ => hA x, funext hS,
    List.nil_append, List.append_nil]
  rfl

/-- Where only the second group of statements appends. -/
theorem commandsOf_second (h : b.appends = fixed ++ settings.map S ++ settings.map A)
    (hfixed : ∀ a ∈ fixed, a.commandOf ch args = none) (hS : ∀ x, (S x).commandOf ch args = none)
    (hA : ∀ x, (A x).commandOf ch args = commandWith header rest x) :
    b.commandsOf ch args = commandsWith header rest := by
  rw [commandsOf_split h, List.filterMap_eq_nil_iff.2 hfixed, List.filterMap_eq_nil_iff.2 fun x _ => hS x, funext hA,
    List.nil_append, List.nil_append]
  rfl

end

@[simp] theorem flag_truth (b : Bool) : ((flag b).map Prod.fst).getD false = b := rfl

theorem commandOf_ifGiven (ch : Int) (args : String → AnyArg) (p header : String) {v : Option Str}
    (h : args p = v.map fun t => (true, t)) :
    Append.commandOf ch args (.ifGiven p (header ++ " ") none) =
      (v.map fun t => ' ' :: t).map fun r => header.toList ++ r := by
  simp only [Append.commandOf, h, fstring]
  cases v <;> simp

theorem commandOf_ifTrue (ch : Int) (args : String → AnyArg) (p header : String) {b : Bool} (h : args p = flag b) :
    Append.commandOf ch args (.ifTrue p (header ++ "?") none) =
      (if b then some ['?'] else none).map fun r => header.toList ++ r := by
  simp only [Append.commandOf, h, flag_truth, fstring]
  cases b <;> simp

/-- The arguments of no trigger: the type and the mode are not given either. -/
theorem assign_type_mode (name : Setting → String) (h : ∀ x, name x ≠ "type" ∧ name x ≠ "mode") :
    assign name default v "type" = default ∧ assign name default v "mode" = default := by
  have hnone (p : String) (hp : ∀ x, name x ≠ p) : assign name default v p = default := by
    unfold assign
    rw [List.find?_eq_none.2 fun x _ => by simp [hp x]]
    rfl
  exact ⟨hnone _ fun x => (h x).1, hnone _ fun x => (h x).2⟩

/-- `set_trigger` with values for the single trigger. -/
theorem setTrigger_sing (ch : Int) (v : Setting → Option Str) :
    setTrigger.commandsOf ch (assign Setting.sing none (given v)) = commandsWith Setting.singHeader (valueRest v) := by
  obtain ⟨htype, hmode⟩ := @assign_type_mode none (given v) Setting.sing (by intro x; cases x <;> decide)
  refine commandsOf_first setTrigger_appends ?_ ?_ ?_
  · simp [Append.commandOf, htype, hmode]
  · simp [Append.commandOf, assign_sing_alt]
  · exact fun x => commandOf_ifGiven ch _ _ _ (assign_sing x)

/-- `set_trigger` with values for the alternate trigger. -/
theorem setTrigger_alt (ch : Int) (v : Setting → Option Str) :
    setTrigger.commandsOf ch (assign Setting.alt none (given v)) = commandsWith Setting.altHeader (valueRest v) := by
  obtain ⟨htype, hmode⟩ := @assign_type_mode none (given v) Setting.alt (by intro x; cases x <;> decide)
  refine commandsOf_second setTrigger_appends ?_ ?_ ?_
  · simp [Append.commandOf, htype, hmode]
  · simp [Append.commandOf, assign_alt_sing]
  · exact fun x => commandOf_ifGiven ch _ _ _ (assign_alt x)

/-- `get_trigger` with flags for the single trigger. -/
theorem getTrigger_sing (ch : Int) (sel : Setting → Bool) :
    getTrigger.commandsOf ch (assign Setting.sing (flag false) fun x => flag (sel x)) =
      commandsWith Setting.singHeader (queryRest sel) := by
  obtain ⟨htype, hmode⟩ := @assign_type_mode (flag false) (fun x => flag (sel x)) Setting.sing
    (by intro x; cases x <;> decide)
  refine commandsOf_first getTrigger_appends ?_ ?_ ?_
  · simp [Append.commandOf, htype, hmode]
  · simp [Append.commandOf, assign_sing_alt]
  · exact fun x => commandOf_ifTrue ch _ _ _ (assign_sing x)

/-- `get_trigger` with flags for the alternate trigger. -/
theorem getTrigger_alt (ch : Int) (sel : Setting → Bool) :
    getTrigger.commandsOf ch (assign Setting.alt (flag false) fun x => flag (sel x)) =
      commandsWith Setting.altHeader (queryRest sel) := by
  obtain ⟨htype, hmode⟩ := @assign_type_mode (flag false) (fun x => flag (sel x)) Setting.alt
    (by intro x; cases x <;> decide)
  refine commandsOf_second getTrigger_appends ?_ ?_ ?_
  · simp [Append.commandOf, htype, hmode]
  · simp [Append.commandOf, assign_alt_sing]
  · exact fun x => commandOf_ifTrue ch _ _ _ (assign_alt x)

/-! ## The path replaced -/

/-- The command with the path of the single trigger in the place of that of the alternate one. -/
def replacePath (command : Str) : Str :=
  if alternatePath.toList.isPrefixOf command then
    singlePath.toList ++ command.drop alternatePath.toList.length
  else command

/-- The header that the alternate trigger's becomes. -/
def Setting.parallelHeader (x : Setting) : String := singlePath ++ x.tail

theorem replacePath_altHeader (x : Setting) (r : Str) :
    replacePath (x.altHeader.toList ++ r) = x.parallelHeader.toList ++ r := by
  have halt : x.altHeader.toList ++ r = alternatePath.toList ++ (x.tail.toList ++ r) := by
    rw [Setting.altHeader, String.toList_append, List.append_assoc]
  have hprefix : alternatePath.toList.isPrefixOf (x.altHeader.toList ++ r) = true := by
    rw [halt, List.isPrefixOf_iff_prefix]
    exact List.prefix_append _ _
  unfold replacePath
  rw [if_pos hprefix, halt, List.drop_left, Setting.parallelHeader, String.toList_append, List.append_assoc]

theorem map_replacePath (rest : Setting → Option Str) :
    (commandsWith Setting.altHeader rest).map replacePath = commandsWith Setting.parallelHeader rest := by
  unfold commandsWith
  rw [List.map_filterMap]
  congr 1
  funext x
  unfold commandWith
  cases rest x with
  | none => rfl
  | some r => exact congrArg some (replacePath_altHeader x r)

/-- The lengths of two lines that differ in one command. -/
theorem length_lineOf_replace (l : List Str) (a b : Str) (m : List Str) :
    (lineOf (l ++ a :: m)).length + b.length = (lineOf (l ++ b :: m)).length + a.length := by
  unfold lineOf
  induction l with
  | nil =>
    cases m with
    | nil => simp [Nat.add_comm]
    | cons c m =>
      simp only [List.nil_append, List.intercalate_cons_cons, List.length_append]
      omega
  | cons c l ih =>
    rw [List.cons_append, List.cons_append, List.intercalate_cons_of_ne_nil (by simp),
      List.intercalate_cons_of_ne_nil (by simp)]
    simp only [List.length_append] at ih ⊢
    omega

theorem singHeader_of_ne {x : Setting} (h : x ≠ .edgeLev) : x.singHeader = x.parallelHeader := by
  rw [Setting.singHeader, if_neg h, Setting.parallelHeader]

/-- The commands before the level, the one for the level, and those behind it. -/
theorem commandsWith_split {rest : Setting → Option Str} {r : Str} (h : rest .edgeLev = some r) :
    ∃ l m, commandsWith Setting.singHeader rest = l ++ (Setting.edgeLev.singHeader.toList ++ r) :: m ∧
      commandsWith Setting.parallelHeader rest = l ++ (Setting.edgeLev.parallelHeader.toList ++ r) :: m := by
  have hsplit : settings =
      [.mode, .edgeSour, .edgeSlop] ++ .edgeLev :: [.videoSour, .videoModu, .videoSync, .videoLnum] := rfl
  have hcongr (xs : List Setting) (hxs : Setting.edgeLev ∉ xs) :
      xs.filterMap (commandWith Setting.singHeader rest) = xs.filterMap (commandWith Setting.parallelHeader rest) := by
    refine List.filterMap_congr fun x hx => ?_
    rw [commandWith, singHeader_of_ne (ne_of_mem_of_not_mem hx hxs), commandWith]
  have hlev (header : Setting → String) :
      commandWith header rest .edgeLev = some ((header .edgeLev).toList ++ r) := by
    rw [commandWith, h]
    rfl
  unfold commandsWith
  rw [hsplit, List.filterMap_append, List.filterMap_append, List.filterMap_cons_some (hlev _),
    List.filterMap_cons_some (hlev _), hcongr _ (by decide), hcongr _ (by decide)]
  exact ⟨_, _, rfl, rfl⟩

/-- The lines are the same if and only if there is no command for the level. -/
theorem lineOf_parallel_iff (rest : Setting → Option Str) :
    lineOf (commandsWith Setting.singHeader rest) =
        lineOf ((commandsWith Setting.altHeader rest).map replacePath) ↔ rest .edgeLev = none := by
  rw [map_replacePath]
  constructor
  · intro h
    cases hlev : rest .edgeLev with
    | none => rfl
    | some r =>
      obtain ⟨l, m, hs, hp⟩ := commandsWith_split hlev
      have hlen := length_lineOf_replace l (Setting.edgeLev.singHeader.toList ++ r)
        (Setting.edgeLev.parallelHeader.toList ++ r) m
      have hcolon : Setting.edgeLev.parallelHeader.toList.length = Setting.edgeLev.singHeader.toList.length + 1 := by
        show (singlePath ++ ":EDGE:LEVel").toList.length = (singlePath ++ "EDGE:LEVel").toList.length + 1
        rw [String.toList_append, String.toList_append, List.length_append, List.length_append, Nat.add_assoc]
        rfl
      rw [← hs, ← hp, h, List.length_append, List.length_append] at hlen
      omega
  · intro h
    unfold commandsWith
    congr 2
    funext x
    unfold commandWith
    by_cases hx : x = .edgeLev
    · rw [hx, h]
      rfl
    · rw [singHeader_of_ne hx]

/-! ## Queries -/

/-- The header of a command: what stands before the first space. -/
def headerOf (command : Str) : Str := command.takeWhile (· ≠ ' ')

theorem headerOf_append {header : Str} (h : ' ' ∉ header) (t : Str) : headerOf (header ++ ' ' :: t) = header := by
  unfold headerOf
  rw [List.takeWhile_append_of_pos]
  · simp
  · intro c hc
    simpa using ne_of_mem_of_not_mem hc h

/-- A statement with a header that has no space, and a space behind it. -/
def Append.sets : Append → Bool
  | .ifGiven _ head none => head.toList.getLast? == some ' ' && !head.toList.dropLast.contains ' '
  | _ => false

/-- The statement that appends the header with a question mark. -/
def Append.query : Append → Append
  | .ifGiven p head _ => .ifTrue p (String.ofList (head.toList.dropLast ++ ['?'])) none
  | a => a

theorem setTrigger_sets : ∀ a ∈ setTrigger.appends, a.sets = true := by
  rw [← List.all_eq_true]
  decide +kernel

theorem getTrigger_query : getTrigger.appends = setTrigger.appends.map Append.query := by
  decide +kernel

theorem commandOf_query {a : Append} (h : a.sets = true) (ch : Int) (args : String → Option Str) :
    a.query.commandOf ch (fun p => flag (args p).isSome) =
      (a.commandOf ch fun p => (args p).map fun t => (true, t)).map fun c => headerOf c ++ ['?'] := by
  cases a with
  | ifTrue p head tail => cases h
  | addOrDelete p value => cases h
  | ifGiven p head tail =>
    cases tail with
    | some tail => cases h
    | none =>
      simp only [Append.sets, Bool.and_eq_true, beq_iff_eq, Bool.not_eq_true'] at h
      obtain ⟨hlast, hspace⟩ := h
      obtain ⟨header, hheader⟩ := List.getLast?_eq_some_iff.1 hlast
      rw [hheader, List.dropLast_concat] at hspace
      cases hp : args p with
      | none => simp [Append.query, Append.commandOf, hp, flag]
      | some t =>
        have hsent : headerOf (header ++ ' ' :: t) = header := headerOf_append (by simpa using hspace) t
        simp [Append.query, Append.commandOf, hp, flag, hsent, fstring, hheader]

/-- **Single and alternate trigger commands are parallel** exactly when the level of the edge is not among them. Each
query is the header of the command that sets, with a question mark. -/
theorem trigger_parallel_iff (ch : Int) :
    (∀ v : Setting → Option Str,
      lineOf (setTrigger.commandsOf ch (assign Setting.sing none (given v))) =
        lineOf ((setTrigger.commandsOf ch (assign Setting.alt none (given v))).map replacePath) ↔
      v .edgeLev = none) ∧
    (∀ sel : Setting → Bool,
      lineOf (getTrigger.commandsOf ch (assign Setting.sing (flag false) fun x => flag (sel x))) =
        lineOf ((getTrigger.commandsOf ch (assign Setting.alt (flag false) fun x => flag (sel x))).map replacePath) ↔
      sel .edgeLev = false) ∧
    ∀ args : String → Option Str,
      getTrigger.commandsOf ch (fun p => flag (args p).isSome) =
        (setTrigger.commandsOf ch fun p => (args p).map fun t => (true, t)).map fun c => headerOf c ++ ['?'] := by
  refine ⟨fun v => ?_, fun sel => ?_, fun args => ?_⟩
  · rw [setTrigger_sing, setTrigger_alt, lineOf_parallel_iff]
    unfold valueRest
    exact Option.map_eq_none_iff
  · rw [getTrigger_sing, getTrigger_alt, lineOf_parallel_iff]
    simp [queryRest]
  · unfold Builder.commandsOf
    rw [getTrigger_query, List.filterMap_map, List.map_filterMap]
    exact List.filterMap_congr fun a ha => commandOf_query (setTrigger_sets a ha) ch args

/-- A level of 0, and no other value. -/
def levelZero (x : Setting) : Option Str := if x = .edgeLev then some ['0'] else none

/-- The command for the level, and its query, lack a colon. -/
theorem level_not_parallel :
    lineOf (setTrigger.commandsOf 0 (assign Setting.sing none (given levelZero))) =
        ":TRIGger:SINGleEDGE:LEVel 0".toList ∧
      lineOf ((setTrigger.commandsOf 0 (assign Setting.alt none (given levelZero))).map replacePath) =
        ":TRIGger:SINGle:EDGE:LEVel 0".toList ∧
      lineOf (setTrigger.commandsOf 0 (assign Setting.sing none (given levelZero))) ≠
        lineOf ((setTrigger.commandsOf 0 (assign Setting.alt none (given levelZero))).map replacePath) ∧
      lineOf (getTrigger.commandsOf 0 (assign Setting.sing (flag false) fun x => flag (levelZero x).isSome)) ≠
        lineOf ((getTrigger.commandsOf 0
          (assign Setting.alt (flag false) fun x => flag (levelZero x).isSome)).map replacePath) := by
  decide +kernel

end OwonVds.Scpi
