import OwonVds.Scpi.Builders
import OwonVds.Socket.Large
import OwonVds.Socket.Short

/-!
# The directory of a deep-memory file

`get_ldm` names a directory of the instrument's host, and `local_dm_transmit` copies the deep memory to a file in it.
Between the two the path is part of a command line, and the server removes all whitespace of a line before it looks at
it: what arrives is the path without its spaces (`pathOf_ldm`), so that the file is in the named directory if and only
if its path has none (`ldm_path_iff`).

The call is dispatched as a local transfer whenever it is the only pending request, for `onlargeTransmit` is raised only
while some answer is pending (`LargePending`).
-/

namespace OwonVds.Scpi

open Java Socket

variable {κ δ : Type} {E : Env κ δ}

/-- `get_ldm`'s command. -/
def getLdm (address : Str) : Str := "*LDM? ".toList ++ address

/-- A path of printable ASCII characters and spaces, without `;`, and without a space at its ends. -/
structure DirectoryPath (path : Str) : Prop where
  plain : ∀ c ∈ path, PlainChar c
  head : path.head? ≠ some ' '
  last : path.getLast? ≠ some ' '

/-! ## What the server makes of the line -/

theorem plain_getLdm {path : Str} (h : DirectoryPath path) : ∀ c ∈ getLdm path, PlainChar c := by
  have hhead : ∀ c ∈ "*LDM? ".toList, PlainChar c := List.all_iff_forall_prop.1 (by decide)
  intro c hc
  rcases List.mem_append.1 hc with hc | hc
  · exact hhead c hc
  · exact h.plain c hc

theorem stripped_append (s t : Str) : stripped (s ++ t) = stripped s ++ stripped t := by
  unfold stripped removeSpaces
  rw [javaString_append, List.filter_append]

theorem stripped_getLdm (path : Str) : stripped (getLdm path) = lit "*LDM?" ++ stripped path := by
  have hhead : stripped "*LDM? ".toList = lit "*LDM?" := by decide
  show stripped ("*LDM? ".toList ++ path) = _
  rw [stripped_append, hhead]

theorem chunkLines_getLdm (cs : Charset) {path : Str} (h : DirectoryPath path) :
    chunkLines cs (written (getLdm path)) = [lit "*LDM?" ++ stripped path] := by
  have hlines := @chunkLines_written cs [getLdm path] (by simpa using plain_getLdm h) (by simp)
  rwa [List.intercalate_singleton, List.map_singleton, stripped_getLdm] at hlines

theorem kindOf_ldm (rest : JString) : kindOf (lit "*LDM?" ++ rest) = .ldm := by
  have hadc : startsWith (lit "*LDM?" ++ rest) (lit "*ADC?") = false := rfl
  have hldm : startsWith (lit "*LDM?" ++ rest) (lit "*LDM?") = true :=
    List.isPrefixOf_iff_prefix.2 (List.prefix_append _ _)
  unfold kindOf
  simp only [hadc, hldm, Bool.false_eq_true, if_false, if_true]

/-- What stays of a path has no blank, so that trimming leaves it. -/
theorem trim_stripped {path : Str} (h : ∀ c ∈ path, PlainChar c) : trim (stripped path) = stripped path := by
  have hno : ∀ c ∈ stripped path, blank c = false := by
    intro c hc
    obtain ⟨hmem, hspace⟩ := List.mem_filter.1 hc
    by_contra hb
    rw [Bool.not_eq_false] at hb
    rw [(plain_java h).2 c hmem hb] at hspace
    cases hspace
  unfold trim
  rw [List.dropWhile_eq_self_iff.2, List.rdropWhile_eq_self_iff.2]
  · intro hne
    rw [hno _ (List.getLast_mem hne)]
    exact Bool.false_ne_true
  · intro hne
    rw [hno _ (List.getElem_mem hne)]
    exact Bool.false_ne_true

theorem substring_append (s t : JString) : substring (s ++ t) s.length = some t := by
  unfold substring
  rw [if_pos (by simp), List.drop_left]

/-- **What arrives of the path**: the path without its spaces. -/
theorem pathOf_ldm {path : Str} (h : ∀ c ∈ path, PlainChar c) :
    pathOf (some (lit "*LDM?" ++ stripped path ++ lit ";")) = some (stripped path) := by
  have hsemi : semicolon ∉ lit "*LDM?" ++ stripped path := by
    intro hmem
    rcases List.mem_append.1 hmem with hmem | hmem
    · exact absurd hmem (by decide)
    · exact (plain_java h).1 (List.mem_filter.1 hmem).1
  show (substring (removeSemicolons (lit "*LDM?" ++ stripped path ++ lit ";")) (lit "*LDM?").length).map trim = _
  rw [removeSemicolons_line hsemi, substring_append, Option.map_some, trim_stripped h]

/-- The path arrives whole iff there is no space in it. -/
theorem stripped_eq_iff {path : Str} (h : ∀ c ∈ path, PlainChar c) : stripped path = javaString path ↔ ' ' ∉ path := by
  have hchar : ∀ n, n < 0x7F → 0x20 ≤ n → (isSpace (UInt16.ofNat n) = true ↔ n = 0x20) := by decide
  have hspace : ∀ c ∈ path, isSpace (UInt16.ofNat c.toNat) = true ↔ c = ' ' := by
    intro c hc
    obtain ⟨h1, h2, -⟩ := h c hc
    rw [hchar c.toNat (by omega) h1]
    constructor
    · intro hn
      rw [← Char.ofNat_toNat c, hn]
    · rintro rfl
      rfl
  unfold stripped removeSpaces
  rw [List.filter_eq_self]
  constructor
  · intro hall hmem
    have hno := hall _ (List.mem_map_of_mem hmem)
    rw [(hspace ' ' hmem).2 rfl] at hno
    cases hno
  · intro hno c hc
    obtain ⟨a, ha, rfl⟩ := List.mem_map.1 hc
    have hne : isSpace (UInt16.ofNat a.toNat) ≠ true := by
      intro hs
      rw [(hspace a ha).1 hs] at ha
      exact hno ha
    simpa using hne

/-! ## The call -/

/-- The request is read: the client is to be answered with the line, by a local transfer. -/
theorem ldm_read {path : Str} (hpath : DirectoryPath path) {l l₁ : Listen δ} {c : Nat} {f : Bool}
    (hw : l.server.Wf) (h : listenStep E l (.ready (.readable c (.bytes (written (getLdm path))) f)) = some l₁) :
    l₁.server.Wf ∧ l₁.server.keys c = some ⟨.opWrite, some (lit "*LDM?" ++ stripped path ++ lit ";")⟩ ∧
      l₁.server.flags = l.server.flags.mark .ldm := by
  refine ⟨wf_step hw h, ?_⟩
  have hlines := chunkLines_getLdm E.charset hpath
  have hne : written (getLdm path) ≠ [] := by simp [written, encode]
  obtain ⟨-, ⟨hr, -⟩ | ⟨hr, -⟩ | ⟨r, hr, hm, -⟩ | ⟨r, x, hr, hf, -⟩⟩ := listenStep_cases hw.buffer h
  · cases hr
  · cases hr
  · cases hr
    generalize l₁.server = s₁ at hm
    cases hm with
    | chunk hk _ _ =>
      have hreply : (chunkTranslation E l.server (written (getLdm path))).1 =
          lit "*LDM?" ++ stripped path ++ lit ";" := by
        rw [chunkTranslation_reply, hlines, reply_single (by rw [kindOf_ldm]; decide)]
      have hreply_ne : lit "*LDM?" ++ stripped path ++ lit ";" ≠ [] := by
        rw [lit_semicolon]
        exact List.concat_ne_nil _ _
      constructor
      · dsimp only [Server.afterChunk]
        rw [hreply, if_pos hreply_ne, Function.update_self]
      · rw [afterChunk_flags, hlines, List.map_singleton, kindOf_ldm]
        rfl
    | close hk hr => exact absurd (hr _ rfl) hne
  · cases hr
    generalize l₁.server = s₁ at hf
    cases hf with
    | close hk hr => exact absurd (hr _ rfl) hne

/-- **When the deep-memory file is in the named directory**: a `get_ldm` call that arrives in one read, with nothing
else pending until it is answered, is answered by a local transfer, and the directory to which that copies the file is
the path if and only if the path has no space. -/
theorem ldm_path_iff (E : Env κ δ) (d : δ) {path : Str} (hpath : DirectoryPath path) {es quiet : List Socket.Event}
    {l l₁ l₂ l₃ : Listen δ} {c : Nat} {f : Bool} {schedule : List (Option Nat)}
    (hrun : Trans.run (listenStep E) (.fresh d) es = some l) (hidle : ∀ c a, l.server.keys c ≠ some ⟨.opWrite, a⟩)
    (hread : listenStep E l (.ready (.readable c (.bytes (written (getLdm path))) f)) = some l₁)
    (hquiet : ∀ e ∈ quiet, Quiet e) (hwait : Trans.run (listenStep E) l₁ quiet = some l₂)
    (hwrite : listenStep E l₂ (.ready (.writable c schedule)) = some l₃) :
    ∃ cmd dir, l₂.server.keys c = some ⟨.opWrite, some cmd⟩ ∧ l₂.server.flags.mode = .local ∧
      (l₃.status = .running → ∃ sent, l₃.server.history =
        l₂.server.history ++ [.answer c cmd .local [.writeDmData false (some cmd)] sent]) ∧
      pathOf (some cmd) = some dir ∧
      (∀ s : Sending δ, localDmTransmit E (some cmd) s =
        .ok (localLine E dir s.dev) { s with dev := afterLocal E dir s.dev }) ∧
      (dir = javaString path ↔ ' ' ∉ path) := by
  obtain ⟨hw, hlarge⟩ := large_of_run hrun hidle
  obtain ⟨hw₁, hk₁, hf₁⟩ := ldm_read hpath hw hread
  obtain ⟨hw₂, hf₂, hk₂⟩ := quiet_run hw₁ hquiet hk₁ hwait
  have hl : l₂.server.flags.onlargeTransmit = false := by rw [hf₂, hf₁]; exact hlarge
  have hd : l₂.server.flags.onDmTransmit = true := by rw [hf₂, hf₁]; rfl
  have hr : l₂.server.flags.isRemoteTransmit = false := by rw [hf₂, hf₁]; rfl
  have hmode : l₂.server.flags.mode = .local := by simp [Flags.mode, hl, hd, hr]
  have hdir := pathOf_ldm hpath.plain
  refine ⟨_, stripped path, hk₂, hmode, fun hrunning => ?_, hdir, localDmTransmit_run hdir, stripped_eq_iff hpath.plain⟩
  obtain ⟨reply, hk, ⟨-, -, d', sent, hs⟩ | ⟨hdied, -⟩⟩ := write_step hw₂ hwrite
  · rw [hk₂] at hk
    cases hk
    refine ⟨sent, ?_⟩
    rw [hs]
    simp [Server.afterAnswer, actsOf, hmode, hr, hl, hd]
  · exact absurd hrunning hdied

/-- A path with a space in it. -/
def spacedPath : Str := ['/', 'a', ' ', 'b']

theorem spacedPath_directory : DirectoryPath spacedPath where
  plain := List.all_iff_forall_prop.1 (by decide)
  head := by decide
  last := by decide

/-- A server with one client that has nothing pending. -/
def oneClient : Listen Unit := ⟨(Server.fresh ()).afterAccept 1, .running⟩

theorem oneClient_run :
    Trans.run (listenStep (bench true none [])) (.fresh ()) [.ready (.acceptable (.client 1 false))] = some oneClient :=
  rfl

theorem oneClient_idle (c : Nat) (a : Option JString) : oneClient.server.keys c ≠ some ⟨.opWrite, a⟩ := by
  show Function.update (fun _ => none : Nat → Option Key) 1 (some ⟨.opRead, none⟩) c ≠ _
  by_cases hc : c = 1
  · subst hc
    rw [Function.update_self]
    simp
  · rw [Function.update_of_ne hc]
    simp

/-- The server reports success, for another directory. -/
theorem spacedPath_run : ∃ l₁ l₂,
    listenStep (bench true none []) oneClient
      (.ready (.readable 1 (.bytes (written (getLdm spacedPath))) false)) = some l₁ ∧
    listenStep (bench true none []) l₁ (.ready (.writable 1 [some 64])) = some l₂ ∧
    l₂.status = .running ∧ l₂.server.history =
      [.chunk 1 (written (getLdm spacedPath)) (lit "*LDM?/ab;"),
        .answer 1 (lit "*LDM?/ab;") .local [.writeDmData false (some (lit "*LDM?/ab;"))]
          ((lit "SUCCESS: /ab/2020_0101_00.00.00.bin\n").map UInt16.toUInt8)] := by
  obtain ⟨l₂, h, hh⟩ := Option.map_eq_some_iff.1 (by decide +kernel : (Trans.run (listenStep (bench true none []))
    oneClient [.ready (.readable 1 (.bytes (written (getLdm spacedPath))) false),
      .ready (.writable 1 [some 64])]).map (fun l => (l.status, l.server.history)) = some (.running,
        [.chunk 1 (written (getLdm spacedPath)) (lit "*LDM?/ab;"),
          .answer 1 (lit "*LDM?/ab;") .local [.writeDmData false (some (lit "*LDM?/ab;"))]
            ((lit "SUCCESS: /ab/2020_0101_00.00.00.bin\n").map UInt16.toUInt8)]))
  obtain ⟨l₁, h₁, h⟩ := Trans.run_cons_eq.1 h
  obtain ⟨hs, hh⟩ := Prod.mk.inj hh
  exact ⟨l₁, l₂, h₁, Trans.run_singleton.1 h, hs, hh⟩

/-- The path `/a b` comes to be `/ab`. -/
theorem spacedPath_lost : DirectoryPath spacedPath ∧ ∃ l₁ l₂,
    listenStep (bench true none []) oneClient
      (.ready (.readable 1 (.bytes (written (getLdm spacedPath))) false)) = some l₁ ∧
    listenStep (bench true none []) l₁ (.ready (.writable 1 [some 64])) = some l₂ ∧
    l₂.server.history =
      [.chunk 1 (written (getLdm spacedPath)) (lit "*LDM?/ab;"),
        .answer 1 (lit "*LDM?/ab;") .local [.writeDmData false (some (lit "*LDM?/ab;"))]
          ((lit "SUCCESS: /ab/2020_0101_00.00.00.bin\n").map UInt16.toUInt8)] ∧
    pathOf (some (lit "*LDM?/ab;")) ≠ some (javaString spacedPath) := by
  obtain ⟨l₁, l₂, h₁, h₂, -, hh⟩ := spacedPath_run
  exact ⟨spacedPath_directory, l₁, l₂, h₁, h₂, hh, by decide⟩

theorem ldm_path_iff_spaced : ∃ (l₁ l₂ : Listen Unit) (cmd dir : JString),
    l₁.server.keys 1 = some ⟨.opWrite, some cmd⟩ ∧ l₁.server.flags.mode = .local ∧
    (l₂.status = .running → ∃ sent, l₂.server.history =
      l₁.server.history ++ [.answer 1 cmd .local [.writeDmData false (some cmd)] sent]) ∧
    pathOf (some cmd) = some dir ∧
    (∀ s : Sending Unit, localDmTransmit (bench true none []) (some cmd) s =
      .ok (localLine (bench true none []) dir s.dev)
        { s with dev := afterLocal (bench true none []) dir s.dev }) ∧
    (dir = javaString spacedPath ↔ ' ' ∉ spacedPath) := by
  obtain ⟨l₁, l₂, h₁, h₂, -, -⟩ := spacedPath_run
  have hwait : Trans.run (listenStep (bench true none [])) l₁ [] = some l₁ := rfl
  exact ⟨l₁, l₂, ldm_path_iff (bench true none []) () spacedPath_directory oneClient_run oneClient_idle h₁
    (fun e he => absurd he List.not_mem_nil) hwait h₂⟩

end OwonVds.Scpi
