import OwonVds.Remote.Serial
import OwonVds.Scpi.Builders
import OwonVds.Scpi.Ldm

/-!
# What a call returns

In an orderly run a call that returns has the instrument's answer to its request, in the state after the requests that
took effect before (`call_returns`). For a call of one of the ten builders, a batch of text commands, that is the
replies of its commands, joined by `;`, each command answered in the state that the command before it has left
(`builder_returns`); for a call of `get_adc` it is the data of its source (`adc_returns`); for a call of `get_rdm` or
`get_ldm` it is the file of the deep memory, or the status of a copy of it (`rdm_returns`, `ldm_returns`).
-/

namespace OwonVds.Remote

open Java (JString lit)
open Socket Scpi Serial OwonVds.Trans

variable {κ δ : Type} {E : Env κ δ}

/-! ## Builders -/

def builders : List Builder :=
  [setMeas, getMeas, setAquire, getAquire, setTimebase, getTimebase, setChannel, getChannel, setTrigger, getTrigger]

/-- The text that a command of the statement begins with. -/
def head : Append → String
  | .ifTrue _ head _ => head
  | .ifGiven _ head _ => head
  | .addOrDelete _ _ => ":MEASure"

theorem fstring_head {t : String} {ch : Int} {tail : Option String} (h : t.toList.head? = some ':') :
    (fstring t ch tail).head? = some ':' := by
  cases tail with
  | none => exact h
  | some tail => simp [fstring, List.head?_append, h]

theorem command_head {a : Append} {ch : Int} {args : String → Arg} {command : Str}
    (hh : (head a).toList.head? = some ':') (h : a.command ch args = some command) : command.head? = some ':' := by
  have happ : ∀ {s t : Str}, s.head? = some ':' → (s ++ t).head? = some ':' := by
    intro s t hs
    rw [List.head?_append, hs]
    rfl
  cases a with
  | ifTrue p t tail =>
    unfold Append.command at h
    dsimp only at h
    split_ifs at h
    cases h
    exact fstring_head hh
  | ifGiven p t tail =>
    unfold Append.command at h
    dsimp only at h
    split at h
    · cases h
    · cases h
      exact happ (fstring_head hh)
  | addOrDelete p value =>
    unfold Append.command at h
    dsimp only at h
    split at h
    · cases h
    · cases h
      exact happ (fstring_head hh)
    · cases h
      exact happ (fstring_head hh)

theorem builders_head : ∀ b ∈ builders, ∀ a ∈ b.appends, (head a).toList.head? = some ':' := by
  have h : (builders.all fun b => b.appends.all fun a => (head a).toList.head? == some ':') = true := by decide +kernel
  intro b hb a ha
  exact beq_iff_eq.1 (List.all_eq_true.1 (List.all_eq_true.1 h b hb) a ha)

theorem kindOf_command {command : Str} (h : command.head? = some ':') : kindOf (stripped command) = .text := by
  obtain ⟨t, rfl⟩ := List.head?_eq_some_iff.1 h
  by_contra hk
  obtain ⟨u, hu⟩ := head_of_kind hk
  have hs : stripped (':' :: t) = 0x3A :: stripped t := rfl
  rw [hs] at hu
  cases (List.cons.inj hu).1

/-- The lines that the server makes of a call. -/
def lines (b : Builder) (ch : Int) (args : String → Arg) : List JString := (b.commands ch args).map stripped

theorem lines_text {b : Builder} {ch : Int} {args : String → Arg} (hb : b ∈ builders) :
    ∀ line ∈ lines b ch args, kindOf line = .text := by
  intro line hline
  obtain ⟨command, hc, rfl⟩ := List.mem_map.1 hline
  obtain ⟨a, ha, hcommand⟩ := List.mem_filterMap.1 hc
  exact kindOf_command (command_head (builders_head b hb a ha) hcommand)

/-- The request of a call is a batch of its commands. -/
theorem requestOf_builder (cs : Java.Charset) {b : Builder} {ch : Int} {args : String → Arg} (hb : b ∈ builders)
    (hsel : b.commands ch args ≠ []) : requestOf cs (transmission (b.batch ch args)) = .batch (lines b ch args) := by
  have hlines : chunkLines cs (transmission (b.batch ch args)) = lines b ch args :=
    chunkLines_written cs (b.plain_commands ch args) hsel
  unfold requestOf
  rw [hlines]
  have htext : ∀ line ∈ lines b ch args, kindOf line = .text := lines_text hb
  generalize lines b ch args = ls at htext
  split
  · rename_i line
    rw [if_pos (htext line (List.mem_singleton_self line))]
  · rfl

/-! ## Replies -/

theorem chars_append (s t : JString) : chars (s ++ t) = chars s ++ chars t := List.map_append

theorem chars_intercalate (rs : List JString) :
    chars ((lit ";").intercalate rs) = [';'].intercalate (rs.map chars) := by
  induction rs with
  | nil => rfl
  | cons r rs ih =>
    cases rs with
    | nil => simp
    | cons r' rs =>
      simp only [List.map_cons] at ih ⊢
      rw [List.intercalate_cons_cons, chars_append, chars_append, ih, List.intercalate_cons_cons]
      rfl

theorem finished_append (cs : Java.Charset) (calls calls' : List Call) :
    finished cs (calls ++ calls') = finished cs calls ++ finished cs calls' := List.filterMap_append

/-- **What a call returns.** In an orderly run, each call that has returned took effect at one point of the log, after
the client's calls before it, and its value is the instrument's answer from the state that the requests before this
point leave; the requests after it find the instrument in the state after this answer. -/
theorem call_returns {d : δ} {es : List Event} {w : World δ} (ho : Along (Orderly E) (worldStep E) (.start d) es)
    (hw : run (worldStep E) (.start d) es = some w) {c : Nat} {s : Link} (hs : w.links c = some s)
    {before after : List Call} {call : Call} (hcalls : s.calls = before ++ call :: after) {k : Nat} {v : Value}
    (hret : call.outcome = .returned k v) :
    ∃ pre post m, w.log E = pre ++ (c, requestOf E.charset (transmission call.command), v) :: post ∧
      own c pre = finished E.charset before ∧ Legal (ask E) d pre m ∧
      (ask E (requestOf E.charset (transmission call.command)) m).1 = v ∧
      Legal (ask E) (ask E (requestOf E.charset (transmission call.command)) m).2 post w.listen.server.dev := by
  have hinv : w.Inv E d :=
    run_inv_along (I := fun w => w.Inv E d) (fun _ _ _ hI hP hs => inv_step hI hP hs) ho hw (inv_start E d)
  obtain ⟨current, hown, -⟩ := (hinv.talk c s hs).current
  have hcall : finished E.charset [call] = [(requestOf E.charset (transmission call.command), v)] := by
    obtain ⟨command, first, outcome⟩ := call
    cases hret
    rfl
  have hsplit : own c (w.log E) = finished E.charset before ++
      (requestOf E.charset (transmission call.command), v) :: (finished E.charset after ++ current) := by
    rw [hown, hcalls, List.append_cons, finished_append, finished_append, hcall]
    simp
  obtain ⟨pre, post, hlog, hpre, -⟩ := own_eq_append hsplit
  have hlegal := hinv.legal
  rw [hlog] at hlegal
  obtain ⟨m, hm, ha, hpost⟩ := legal_append.1 hlegal
  exact ⟨pre, post, m, hlog, hpre, hm, ha, hpost⟩

/-- **What a call of a builder returns.** In an orderly run, for each call of a builder that selects a command and that
has returned: the call took effect at one point of the log, after the client's calls before it; and with `m` the state
of the instrument that the requests before this point leave, the value is the replies to the commands, in the order of
the parameters, from `m` on, joined by `;`. -/
theorem builder_returns (E : Env κ δ) (d : δ) {es : List Event} {w : World δ}
    (ho : Along (Orderly E) (worldStep E) (.start d) es) (hw : run (worldStep E) (.start d) es = some w)
    {b : Builder} (hb : b ∈ builders) {ch : Int} {args : String → Arg} (hsel : b.commands ch args ≠ [])
    {c : Nat} {s : Link} (hs : w.links c = some s) {before after : List Call} {call : Call}
    (hcalls : s.calls = before ++ call :: after) (hcommand : call.command = b.batch ch args) {k : Nat} {v : Value}
    (hret : call.outcome = .returned k v) :
    ∃ pre post m, w.log E = pre ++ (c, .batch (lines b ch args), v) :: post ∧ own c pre = finished E.charset before ∧
      Legal (ask E) d pre m ∧
      v = .text ([';'].intercalate ((replies E.factory (lines b ch args) m).1.map chars)) ∧
      (replies E.factory (lines b ch args) m).1.length = (b.commands ch args).length := by
  obtain ⟨pre, post, m, hlog, hpre, hm, ha, -⟩ := call_returns ho hw hs hcalls hret
  rw [hcommand, requestOf_builder E.charset hb hsel] at hlog ha
  refine ⟨pre, post, m, hlog, hpre, hm, ?_, ?_⟩
  · rw [← ha, ← chars_intercalate]
    rfl
  · rw [length_replies, lines, List.length_map]

/-! ## Two queries of `get_aquire` -/

def typeAndDepthBatch : Str := getAquire.batch 1 typeAndDepth

def depthAsked : List Event :=
  [.connect 1, .client 1 (.call typeAndDepthBatch), .client 1 .write, .read 1 33, .write 1 [100], .client 1 .drained,
    .client 1 (.arrive 52), .client 1 .read]

def unanalysedTwice : TextReply where
  reply := lit "CAN NOT ANALYSE THE ORDER;CAN NOT ANALYSE THE ORDER"
  ascii := List.all_iff_forall_prop.1 (by decide)
  nonempty := by decide +kernel
  noLineFeed := by decide +kernel
  noHash := by decide +kernel
  noTrailingSpace := fun c hc => by cases hc; decide

theorem unanalysedTwice_reply :
    unanalysedTwice.reply = replyTo fiveBench.factory [lit ":ACQuire:TYPE?", lit ":ACQuire:MDEPth?"] () := by
  decide +kernel

theorem depth_orderly : Along (Orderly fiveBench) (worldStep fiveBench) (.start ()) depthAsked := by
  refine along_of_take fun i hi w hw => ?_
  have hi' : i < 8 := hi
  interval_cases i
  case «0» => exact True.intro
  case «3» =>
    have hu := of_run (World.unread · 1) (a := transmission typeAndDepthBatch) (by decide +kernel) hw
    have hf := of_run (·.listen.server.flags.mode) (a := .text) (by decide +kernel) hw
    have hreq : requestOf fiveBench.charset (w.unread 1) =
        .batch [lit ":ACQuire:TYPE?", lit ":ACQuire:MDEPth?"] := by
      rw [hu]
      decide +kernel
    refine ⟨?_, ?_⟩
    · rw [hu]
      decide +kernel
    · rw [hreq]
      exact ⟨by decide +kernel, hf, .text unanalysedTwice, trivial, congrArg Answer.text unanalysedTwice_reply⟩
  case «4» =>
    have ha := of_run (World.attachment · 1) (a := some unanalysedTwice.reply) (by decide +kernel) hw
    have hf := of_run (·.listen.server.flags) (a := Flags.clean) (by decide +kernel) hw
    refine ⟨fun ps hps => ?_, fun h => ?_⟩
    · rw [ha, hf] at hps
      cases hps
      exact ⟨by decide +kernel, trivial⟩
    · rw [hf] at h
      exact absurd rfl h
  all_goals exact nofun

/-- Both queries are answered, in their order. -/
theorem builder_returns_depth : ∃ w s call, run (worldStep fiveBench) (.start ()) depthAsked = some w ∧
    w.links 1 = some s ∧ s.calls = [call] ∧ call.command = typeAndDepthBatch ∧ ∃ m, call.outcome = .returned 0
      (.text ([';'].intercalate
        ((replies fiveBench.factory [lit ":ACQuire:TYPE?", lit ":ACQuire:MDEPth?"] m).1.map chars))) := by
  obtain ⟨w, h⟩ := Option.isSome_iff_exists.1
    (by decide +kernel : (run (worldStep fiveBench) (.start ()) depthAsked).isSome = true)
  have hcalls := of_run (fun w => (w.links 1).map Link.calls)
    (a := some [⟨typeAndDepthBatch, some 0, .returned 0 (.text (chars unanalysedTwice.reply))⟩]) (by decide +kernel) h
  obtain ⟨s, hs, hc⟩ := Option.map_eq_some_iff.1 hcalls
  have hmem : getAquire ∈ builders := .tail _ (.tail _ (.tail _ (.head _)))
  have hsplit : s.calls =
      [] ++ ⟨typeAndDepthBatch, some 0, .returned 0 (.text (chars unanalysedTwice.reply))⟩ :: [] := hc
  obtain ⟨-, -, m, -, -, -, hv, -⟩ :=
    builder_returns fiveBench () depth_orderly h hmem (by decide +kernel) hs hsplit rfl rfl
  have hlines : lines getAquire 1 typeAndDepth = [lit ":ACQuire:TYPE?", lit ":ACQuire:MDEPth?"] := by decide +kernel
  rw [hlines] at hv
  exact ⟨w, s, _, h, hs, hc, rfl, m, congrArg _ hv⟩

/-! ## Single commands -/

def reset : Str := "*RST".toList

def setAuto : Str := "*AUToset".toList

def identify : Str := "*IDN?".toList

def setRun : Str := "*RUNStop".toList

def getRun : Str := "*RUNStop?".toList

/-- `get_adc`'s command. -/
def getAdc (source : Str) : Str := "*ADC? ".toList ++ source

theorem chunkLines_single (cs : Java.Charset) {command : Str} (h : ∀ c ∈ command, PlainChar c) :
    chunkLines cs (transmission command) = [stripped command] := by
  have hplain : ∀ s ∈ [command], ∀ c ∈ s, PlainChar c := by
    intro s hs
    rw [List.mem_singleton.1 hs]
    exact h
  have hwritten := chunkLines_written cs hplain (List.cons_ne_nil _ _)
  rwa [List.intercalate_singleton] at hwritten

theorem requestOf_single (cs : Java.Charset) {command : Str}
    (h : command ∈ [reset, setAuto, identify, setRun, getRun]) :
    requestOf cs (transmission command) = .batch [stripped command] := by
  have hall : (∀ c ∈ command, PlainChar c) ∧ kindOf (stripped command) = .text := by
    simp only [List.mem_cons, List.not_mem_nil, or_false] at h
    rcases h with rfl | rfl | rfl | rfl | rfl
    all_goals exact ⟨List.all_iff_forall_prop.1 (by decide), by decide⟩
  obtain ⟨hplain, hkind⟩ := hall
  unfold requestOf
  rw [chunkLines_single cs hplain]
  exact if_pos hkind

/-- What a call of a fixed command returns: the reply to it, in the state that the requests before it in the log
leave. -/
theorem single_returns {d : δ} {es : List Event} {w : World δ} (ho : Along (Orderly E) (worldStep E) (.start d) es)
    (hw : run (worldStep E) (.start d) es = some w) {c : Nat} {s : Link} (hs : w.links c = some s)
    {before after : List Call} {call : Call} (hcalls : s.calls = before ++ call :: after)
    (hcommand : call.command ∈ [reset, setAuto, identify, setRun, getRun]) {k : Nat} {v : Value}
    (hret : call.outcome = .returned k v) :
    ∃ pre post m, w.log E = pre ++ (c, .batch [stripped call.command], v) :: post ∧
      own c pre = finished E.charset before ∧ Legal (ask E) d pre m ∧
      v = .text (chars (replyOf E.factory (stripped call.command) m)) := by
  obtain ⟨pre, post, m, hlog, hpre, hm, ha, -⟩ := call_returns ho hw hs hcalls hret
  rw [requestOf_single E.charset hcommand] at hlog ha
  refine ⟨pre, post, m, hlog, hpre, hm, ha.symm.trans ?_⟩
  show Value.text (chars ((lit ";").intercalate [replyOf E.factory (stripped call.command) m])) = _
  rw [List.intercalate_singleton]

theorem requestOf_query_command (cs : Java.Charset) {command : Str} (h : ∀ c ∈ command, PlainChar c)
    (hk : kindOf (stripped command) ≠ .text) :
    requestOf cs (transmission command) = .query (stripped command) := by
  unfold requestOf
  rw [chunkLines_single cs h]
  exact if_neg hk

theorem stripped_getAdc (source : Str) : stripped (getAdc source) = lit "*ADC?" ++ stripped source := by
  have hhead : stripped "*ADC? ".toList = lit "*ADC?" := by decide
  show stripped ("*ADC? ".toList ++ source) = _
  rw [stripped_append, hhead]

theorem kindOf_adc (rest : JString) : kindOf (lit "*ADC?" ++ rest) = .adc :=
  if_pos (List.isPrefixOf_iff_prefix.2 (List.prefix_append _ _))

theorem requestOf_getAdc (cs : Java.Charset) {source : Str} (h : ∀ c ∈ source, PlainChar c) :
    requestOf cs (transmission (getAdc source)) = .query (lit "*ADC?" ++ stripped source) := by
  have hplain : ∀ c ∈ getAdc source, PlainChar c := by
    have hhead : ∀ c ∈ "*ADC? ".toList, PlainChar c := List.all_iff_forall_prop.1 (by decide)
    intro c hc
    rcases List.mem_append.1 hc with hc | hc
    · exact hhead c hc
    · exact h c hc
  have hkind : kindOf (stripped (getAdc source)) ≠ .text := by
    rw [stripped_getAdc, kindOf_adc]
    decide
  rw [requestOf_query_command cs hplain hkind, stripped_getAdc]

/-- **What a call of `get_adc` returns.** In an orderly run, each call of it that has returned took effect at one point
of the log, after the client's calls before it; and the value is what the provider has for the source, its spaces
removed, in the state that the requests before this point leave, and no bytes where it has none. -/
theorem adc_returns (E : Env κ δ) (d : δ) {es : List Event} {w : World δ}
    (ho : Along (Orderly E) (worldStep E) (.start d) es) (hw : run (worldStep E) (.start d) es = some w)
    {source : Str} (hsource : ∀ c ∈ source, PlainChar c) {c : Nat} {s : Link} (hs : w.links c = some s)
    {before after : List Call} {call : Call} (hcalls : s.calls = before ++ call :: after)
    (hcommand : call.command = getAdc source) {k : Nat} {v : Value} (hret : call.outcome = .returned k v) :
    ∃ pre post m, w.log E = pre ++ (c, .query (lit "*ADC?" ++ stripped source), v) :: post ∧
      own c pre = finished E.charset before ∧ Legal (ask E) d pre m ∧
      v = .bytes (((E.factory.getData (lit "*ADC?" ++ stripped source) m).1.map Subtype.val).getD []) := by
  obtain ⟨pre, post, m, hlog, hpre, hm, ha, -⟩ := call_returns ho hw hs hcalls hret
  rw [hcommand, requestOf_getAdc E.charset hsource] at hlog ha
  refine ⟨pre, post, m, hlog, hpre, hm, ?_⟩
  rw [← ha, ask, answerTo, query, if_pos (kindOf_adc _), provided]
  cases (E.factory.getData (lit "*ADC?" ++ stripped source) m).1 <;> rfl

def adcAsked : List Event :=
  [.connect 1, .client 1 (.call (getAdc "CH1".toList)), .client 1 .write, .read 1 11, .write 1 [1, 4, 1, 2048],
    .client 1 .drained, .client 1 (.arrive 11), .client 1 .read, .client 1 .read]

theorem adc_orderly : Along (Orderly fiveBench) (worldStep fiveBench) (.start ()) adcAsked := by
  refine along_of_take fun i hi w hw => ?_
  have hi' : i < 9 := hi
  interval_cases i
  case «0» => exact True.intro
  case «3» =>
    have hu := of_run (World.unread · 1) (a := transmission (getAdc "CH1".toList)) (by decide +kernel) hw
    have hk := of_run (fun w => w.listen.server.keys 1) (a := some ⟨.opRead, none⟩) (by decide +kernel) hw
    refine ⟨?_, ?_⟩
    · rw [hu]
      decide +kernel
    · rw [hu, requestOf_getAdc fiveBench.charset (List.all_iff_forall_prop.1 (by decide))]
      exact not_waiting_of_ready (l := [1]) (by simp [adcAsked]) hw (by simpa using hk)
  case «4» =>
    have ha := of_run (World.attachment · 1) (a := some (lit "*ADC?CH1;")) (by decide +kernel) hw
    have hf := of_run (·.listen.server.flags) (a := ⟨true, false, false⟩) (by decide +kernel) hw
    refine ⟨fun ps hps => ?_, fun _ line hline => ?_⟩
    · rw [ha, hf] at hps
      have hparts : (eachParts fiveBench (Java.split Java.semicolon (Java.trim (lit "*ADC?CH1;"))) ()).1 =
          largeParts (some fiveBytes) := by decide +kernel
      obtain rfl : largeParts (some fiveBytes) = ps := hparts.symm.trans (Option.some.inj hps)
      exact ⟨by decide, by decide, by decide, trivial⟩
    · rw [ha] at hline
      obtain rfl : lit "*ADC?CH1" = line := List.append_cancel_right (Option.some.inj hline)
      exact ⟨.frame fiveBytes, by constructor <;> decide, rfl⟩
  all_goals exact nofun

/-- The client has the five bytes. -/
theorem adc_returns_five : ∃ w s call, run (worldStep fiveBench) (.start ()) adcAsked = some w ∧
    w.links 1 = some s ∧ s.calls = [call] ∧ call.outcome = .returned 0 (.bytes fiveBytes.1) ∧
    ∃ pre post v, w.log fiveBench = pre ++ (1, .query (lit "*ADC?CH1"), v) :: post := by
  obtain ⟨w, h⟩ := Option.isSome_iff_exists.1
    (by decide +kernel : (run (worldStep fiveBench) (.start ()) adcAsked).isSome = true)
  have hcalls := of_run (fun w => (w.links 1).map Link.calls)
    (a := some [⟨getAdc "CH1".toList, some 0, .returned 0 (.bytes fiveBytes.1)⟩]) (by decide +kernel) h
  obtain ⟨s, hs, hc⟩ := Option.map_eq_some_iff.1 hcalls
  have hsplit : s.calls = [] ++ ⟨getAdc "CH1".toList, some 0, .returned 0 (.bytes fiveBytes.1)⟩ :: [] := hc
  obtain ⟨pre, post, -, hlog, -⟩ :=
    adc_returns fiveBench () adc_orderly h (List.all_iff_forall_prop.1 (by decide)) hs hsplit rfl rfl
  have hline : lit "*ADC?" ++ stripped "CH1".toList = lit "*ADC?CH1" := by decide
  rw [hline] at hlog
  exact ⟨w, s, _, h, hs, hc, rfl, pre, post, _, hlog⟩

/-! ## Deep memory -/

/-- `get_rdm`'s command. -/
def getRdm : Str := "*RDM?".toList

/-- What a call of a deep-memory query returns. -/
theorem deep_returns {d : δ} {es : List Event} {w : World δ} (ho : Along (Orderly E) (worldStep E) (.start d) es)
    (hw : run (worldStep E) (.start d) es = some w) {c : Nat} {s : Link} (hs : w.links c = some s)
    {before after : List Call} {call : Call} (hcalls : s.calls = before ++ call :: after)
    (hplain : ∀ c ∈ call.command, PlainChar c) {remote : Bool}
    (hkind : kindOf (stripped call.command) = if remote then .rdm else .ldm) {k : Nat} {v : Value}
    (hret : call.outcome = .returned k v) :
    ∃ pre post m, w.log E = pre ++ (c, .query (stripped call.command), v) :: post ∧
      own c pre = finished E.charset before ∧ Legal (ask E) d pre m ∧
      v = valueOf (deepMemory E.platform remote
        (Java.trim ((stripped call.command).drop (lit "*LDM?").length)) m).1 ∧
      Legal (ask E) (deepMemory E.platform remote
        (Java.trim ((stripped call.command).drop (lit "*LDM?").length)) m).2 post w.listen.server.dev := by
  obtain ⟨pre, post, m, hlog, hpre, hm, ha, hpost⟩ := call_returns ho hw hs hcalls hret
  have htext : kindOf (stripped call.command) ≠ .text := by
    rw [hkind]
    cases remote <;> decide
  rw [requestOf_query_command E.charset hplain htext] at hlog ha hpost
  have hadc : kindOf (stripped call.command) ≠ .adc := by
    rw [hkind]
    cases remote <;> decide
  have hremote : decide (kindOf (stripped call.command) = .rdm) = remote := by
    rw [hkind]
    cases remote <;> rfl
  rw [ask, answerTo, query, if_neg hadc, hremote] at ha hpost
  exact ⟨pre, post, m, hlog, hpre, hm, ha.symm, hpost⟩

/-- **What a call of `get_rdm` returns.** In an orderly run, each call of it that has returned took effect at one point
of the log, after the client's calls before it; and the value is, in the state that the requests before this point
leave, the file of the deep memory that the instrument saves, or the status where it is offline or the copy fails. The
requests after it find the instrument in the state after the transfer. -/
theorem rdm_returns (E : Env κ δ) (d : δ) {es : List Event} {w : World δ}
    (ho : Along (Orderly E) (worldStep E) (.start d) es) (hw : run (worldStep E) (.start d) es = some w) {c : Nat}
    {s : Link} (hs : w.links c = some s) {before after : List Call} {call : Call}
    (hcalls : s.calls = before ++ call :: after) (hcommand : call.command = getRdm) {k : Nat} {v : Value}
    (hret : call.outcome = .returned k v) :
    ∃ pre post m, w.log E = pre ++ (c, .query (lit "*RDM?"), v) :: post ∧ own c pre = finished E.charset before ∧
      Legal (ask E) d pre m ∧ v = valueOf (deepMemory E.platform true [] m).1 ∧
      Legal (ask E) (deepMemory E.platform true [] m).2 post w.listen.server.dev := by
  have hplain : ∀ c ∈ getRdm, PlainChar c := List.all_iff_forall_prop.1 (by decide)
  have hstripped : stripped getRdm = lit "*RDM?" := by decide
  have hkind : kindOf (stripped getRdm) = if true then .rdm else .ldm := by decide
  have h := deep_returns ho hw hs hcalls (hcommand ▸ hplain) (hcommand ▸ hkind) hret
  rw [hcommand, hstripped] at h
  exact h

/-- **What a call of `get_ldm` returns.** In an orderly run, each call of it that has returned took effect at one point
of the log, after the client's calls before it; and the value is the status of a copy of the deep memory, in the state
that the requests before this point leave, to the directory of that name without its spaces. -/
theorem ldm_returns (E : Env κ δ) (d : δ) {es : List Event} {w : World δ}
    (ho : Along (Orderly E) (worldStep E) (.start d) es) (hw : run (worldStep E) (.start d) es = some w)
    {path : Str} (hpath : DirectoryPath path) {c : Nat} {s : Link} (hs : w.links c = some s) {before after : List Call}
    {call : Call} (hcalls : s.calls = before ++ call :: after) (hcommand : call.command = getLdm path) {k : Nat}
    {v : Value} (hret : call.outcome = .returned k v) :
    ∃ pre post m, w.log E = pre ++ (c, .query (lit "*LDM?" ++ stripped path), v) :: post ∧
      own c pre = finished E.charset before ∧ Legal (ask E) d pre m ∧
      v = valueOf (deepMemory E.platform false (stripped path) m).1 := by
  have hkind : kindOf (stripped (getLdm path)) = if false then .rdm else .ldm := by
    rw [stripped_getLdm]
    exact kindOf_ldm _
  obtain ⟨pre, post, m, hlog, hpre, hm, hv, -⟩ :=
    deep_returns ho hw hs hcalls (hcommand ▸ plain_getLdm hpath) (hcommand ▸ hkind) hret
  rw [hcommand, stripped_getLdm] at hlog hv
  rw [List.drop_left, trim_stripped hpath.plain] at hv
  exact ⟨pre, post, m, hlog, hpre, hm, hv⟩

/-! ## The file and a copy of it -/

def hostPath : Str := "/tmp".toList

theorem hostPath_directory : DirectoryPath hostPath where
  plain := List.all_iff_forall_prop.1 (by decide)
  head := by decide
  last := by decide

/-- A client asks for the deep memory, and then for a copy of it. -/
def deepAsked : List Event :=
  [.connect 1, .client 1 (.call getRdm), .client 1 .write, .read 1 7, .write 1 [1, 4, 1, 3, 0], .client 1 .drained,
    .client 1 (.arrive 9), .client 1 .read, .client 1 .read, .client 1 (.call (getLdm hostPath)), .client 1 .write,
    .read 1 12, .write 1 [64], .client 1 .drained, .client 1 (.arrive 37), .client 1 .read]

def threeBytes : ByteArr := ⟨[1, 2, 3], by decide⟩

def copiedStatus : TextReply where
  reply := lit "SUCCESS: /tmp/2020_0101_00.00.00.bin"
  ascii := List.all_iff_forall_prop.1 (by decide)
  nonempty := by decide +kernel
  noLineFeed := by decide +kernel
  noHash := by decide +kernel
  noTrailingSpace := fun c hc => by cases hc; decide

theorem deep_orderly : Along (Orderly fiveBench) (worldStep fiveBench) (.start ()) deepAsked := by
  refine along_of_take fun i hi w hw => ?_
  have hi' : i < 16 := hi
  interval_cases i
  case «0» => exact True.intro
  case «3» =>
    have hu := of_run (World.unread · 1) (a := transmission getRdm) (by decide +kernel) hw
    have hk := of_run (fun w => w.listen.server.keys 1) (a := some ⟨.opRead, none⟩) (by decide +kernel) hw
    have hreq : requestOf fiveBench.charset (transmission getRdm) = .query (lit "*RDM?") := by decide +kernel
    refine ⟨?_, ?_⟩
    · rw [hu]
      decide +kernel
    · rw [hu, hreq]
      exact not_waiting_of_ready (l := [1]) (by simp [deepAsked]) hw (by simpa using hk)
  case «4» =>
    have ha := of_run (World.attachment · 1) (a := some (lit "*RDM?;")) (by decide +kernel) hw
    have hf := of_run (·.listen.server.flags) (a := ⟨false, true, true⟩) (by decide +kernel) hw
    refine ⟨fun ps hps => ?_, fun _ line hline => ?_⟩
    · rw [ha, hf] at hps
      have hparts : responseParts fiveBench ⟨false, true, true⟩ (some (lit "*RDM?;")) () =
          some (remoteFrameParts fiveBench [1, 2, 3]) := by decide +kernel
      obtain rfl : remoteFrameParts fiveBench [1, 2, 3] = ps := Option.some.inj (hparts.symm.trans hps)
      exact ⟨by decide, by decide, by decide, by decide, trivial⟩
    · rw [ha] at hline
      obtain rfl : lit "*RDM?" = line := List.append_cancel_right (Option.some.inj hline)
      exact ⟨.frame threeBytes, by constructor <;> decide, rfl⟩
  case «11» =>
    have hu := of_run (World.unread · 1) (a := transmission (getLdm hostPath)) (by decide +kernel) hw
    have hk := of_run (fun w => w.listen.server.keys 1) (a := some ⟨.opRead, none⟩) (by decide +kernel) hw
    have hreq : requestOf fiveBench.charset (transmission (getLdm hostPath)) = .query (lit "*LDM?/tmp") := by
      decide +kernel
    refine ⟨?_, ?_⟩
    · rw [hu]
      decide +kernel
    · rw [hu, hreq]
      exact not_waiting_of_ready (l := [1]) (by simp [deepAsked]) hw (by simpa using hk)
  case «12» =>
    have ha := of_run (World.attachment · 1) (a := some (lit "*LDM?/tmp;")) (by decide +kernel) hw
    have hf := of_run (·.listen.server.flags) (a := ⟨false, true, false⟩) (by decide +kernel) hw
    refine ⟨fun ps hps => ?_, fun _ line hline => ?_⟩
    · rw [ha, hf] at hps
      have hparts : responseParts fiveBench ⟨false, true, false⟩ (some (lit "*LDM?/tmp;")) () =
          some (lineParts fiveBench (copiedStatus.reply ++ lit "\n")) := by decide +kernel
      obtain rfl : lineParts fiveBench (copiedStatus.reply ++ lit "\n") = ps := Option.some.inj (hparts.symm.trans hps)
      exact ⟨by decide +kernel, trivial⟩
    · rw [ha] at hline
      obtain rfl : lit "*LDM?/tmp" = line := List.append_cancel_right (Option.some.inj hline)
      exact ⟨.text copiedStatus, trivial, rfl⟩
  all_goals exact nofun

/-- Both calls return, the second with the directory in its status. -/
theorem deep_calls : ∃ w s, run (worldStep fiveBench) (.start ()) deepAsked = some w ∧ w.links 1 = some s ∧
    s.calls = [⟨getRdm, some 0, .returned 0 (.bytes [1, 2, 3])⟩,
      ⟨getLdm hostPath, some 1, .returned 1 (.text (chars copiedStatus.reply))⟩] := by
  obtain ⟨w, h⟩ := Option.isSome_iff_exists.1
    (by decide +kernel : (run (worldStep fiveBench) (.start ()) deepAsked).isSome = true)
  have hcalls := of_run (fun w => (w.links 1).map Link.calls)
    (a := some [⟨getRdm, some 0, .returned 0 (.bytes [1, 2, 3])⟩,
      ⟨getLdm hostPath, some 1, .returned 1 (.text (chars copiedStatus.reply))⟩]) (by decide +kernel) h
  obtain ⟨s, hs, hc⟩ := Option.map_eq_some_iff.1 hcalls
  exact ⟨w, s, h, hs, hc⟩

theorem rdm_returns_three : ∃ w pre post m, run (worldStep fiveBench) (.start ()) deepAsked = some w ∧
    w.log fiveBench = pre ++ (1, .query (lit "*RDM?"), .bytes [1, 2, 3]) :: post ∧ own 1 pre = [] ∧
    .bytes [1, 2, 3] = valueOf (deepMemory fiveBench.platform true [] m).1 ∧
    Legal (ask fiveBench) (deepMemory fiveBench.platform true [] m).2 post w.listen.server.dev := by
  obtain ⟨w, s, h, hs, hc⟩ := deep_calls
  have hsplit : s.calls = [] ++ ⟨getRdm, some 0, .returned 0 (.bytes [1, 2, 3])⟩ ::
      [⟨getLdm hostPath, some 1, .returned 1 (.text (chars copiedStatus.reply))⟩] := hc
  obtain ⟨pre, post, m, hlog, hpre, -, hv, hpost⟩ := rdm_returns fiveBench () deep_orderly h hs hsplit rfl rfl
  exact ⟨w, pre, post, m, h, hlog, hpre, hv, hpost⟩

theorem ldm_returns_status : ∃ w pre post m, run (worldStep fiveBench) (.start ()) deepAsked = some w ∧
    w.log fiveBench = pre ++ (1, .query (lit "*LDM?/tmp"), .text (chars copiedStatus.reply)) :: post ∧
    own 1 pre = [(.query (lit "*RDM?"), .bytes [1, 2, 3])] ∧
    .text (chars copiedStatus.reply) = valueOf (deepMemory fiveBench.platform false (lit "/tmp") m).1 := by
  obtain ⟨w, s, h, hs, hc⟩ := deep_calls
  have hsplit : s.calls = [⟨getRdm, some 0, .returned 0 (.bytes [1, 2, 3])⟩] ++
      ⟨getLdm hostPath, some 1, .returned 1 (.text (chars copiedStatus.reply))⟩ :: [] := hc
  obtain ⟨pre, post, m, hlog, hpre, -, hv⟩ :=
    ldm_returns fiveBench () deep_orderly h hostPath_directory hs hsplit rfl rfl
  have hline : lit "*LDM?" ++ stripped hostPath = lit "*LDM?/tmp" := by decide
  have hpath : stripped hostPath = lit "/tmp" := by decide
  have hreq : requestOf fiveBench.charset (transmission getRdm) = .query (lit "*RDM?") := by decide +kernel
  rw [hline] at hlog
  rw [hpath] at hv
  refine ⟨w, pre, post, m, h, hlog, hpre.trans ?_, hv⟩
  simp [finished, hreq]

end OwonVds.Remote
