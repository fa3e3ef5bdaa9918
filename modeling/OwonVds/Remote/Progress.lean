import OwonVds.Lib.Ranking
import OwonVds.Remote.Serial

/-!
# Every call is answered

`Served` is the step that brings a call on: any orderly step but a new connection, a new call, or the arrival of no
bytes. Each lowers a rank (`served_forward`), so that no run of them goes on for ever; and as long as a call is not at
its end one of them is possible (`exists_served`). Together: whatever the order, the calls are answered
(`calls_answered`).
-/

namespace OwonVds.Remote

open Java (Bytes JString lit)
open Socket Scpi Serial Parts OwonVds.Trans

variable {κ δ : Type} {E : Env κ δ}

/-! ## What the server can do -/

theorem serve_of_ok {l : Listen δ} {r : Ready} {s' : Server δ} (hrun : l.status = .running)
    (hen : enabled l.server r = true) (h : process E r l.server = .ok () s') : serve E l r = some ⟨s', .running⟩ := by
  unfold serve listenStep
  rw [if_pos hrun]
  dsimp only
  rw [if_pos hen, h]
  rfl

/-- The server can read what fits the buffer. -/
theorem exists_serve_read {l : Listen δ} {c : Nat} {a : Option JString} {chunk : Bytes} (hrun : l.status = .running)
    (hw : l.server.Wf) (hk : l.server.keys c = some ⟨.opRead, a⟩) (hne : chunk ≠ []) (hlen : chunk.length ≤ 1024) :
    ∃ l', serve E l (.readable c (.bytes chunk) false) = some l' := by
  have hen : enabled l.server (.readable c (.bytes chunk) false) = true := by
    show ((l.server.keys c).map Key.interest == some .opRead &&
      decide (chunk.length ≤ l.server.clientBuffer.limit - l.server.clientBuffer.position)) = true
    rw [hk, hw.buffer.1, hw.buffer.2.1]
    simpa using hlen
  cases chunk with
  | nil => exact absurd rfl hne
  | cons b bs =>
    have hstep : process E (.readable c (.bytes (b :: bs)) false) l.server =
        .ok () (l.server.afterChunk E c (b :: bs)) := readStep_eq (Option.isSome_iff_exists.2 ⟨_, hk⟩) hw.buffer
    exact ⟨_, serve_of_ok hrun hen hstep⟩

/-- The server can answer, and the channel can take the whole of the answer. -/
theorem exists_serve_write {l : Listen δ} {c : Nat} {a : JString} {r : Answer × δ} {ps : List (MessagePart UInt8)}
    (hrun : l.status = .running) (hk : l.server.keys c = some ⟨.opWrite, some a⟩)
    (ha : AnsweredBy E l.server.flags a l.server.dev r ps) :
    ∃ ks l', OnceWhole ps ks ∧ serve E l (.writable c (ks.map some)) = some l' := by
  obtain ⟨ks, hw, hs⟩ := exists_send_whole ha.loops
  have hstep := writeStep_sends hk ha.emits hs
  have hen : enabled l.server (.writable c (ks.map some)) = true := by
    show ((l.server.keys c).map Key.interest == some .opWrite) = true
    rw [hk]
    rfl
  exact ⟨ks, _, hw, serve_of_ok hrun hen hstep⟩

/-! ## Calls that are served -/

/-- The command of the current call. -/
def commandOf : Phase → Option Str
  | .idle => none
  | .started command => some command
  | .draining command _ => some command
  | .reading command _ => some command
  | .receiving command _ _ _ => some command

/-- The command is a request that the server reads at once, a query or a batch of text commands only, and the instrument
always has an answer to it that the client can read. -/
def Serviceable (E : Env κ δ) (command : Str) : Prop :=
  (transmission command).length ≤ 1024 ∧
    (∀ lines, requestOf E.charset (transmission command) = .batch lines → ∀ line ∈ lines, kindOf line = .text) ∧
    ∀ d, Readable (answerTo E (requestOf E.charset (transmission command)) d).1

/-- Only serviceable commands are called. -/
def Asks (E : Env κ δ) : Event → Prop
  | .client _ (.call command) => Serviceable E command
  | _ => True

/-- The step brings a call on. -/
def Serves : Event → Prop
  | .connect _ => False
  | .client _ (.call _) => False
  | .client _ (.arrive n) => 0 < n
  | _ => True

def Served (E : Env κ δ) (w' w : World δ) : Prop := ∃ e, Serves e ∧ Orderly E w e ∧ worldStep E w e = some w'

/-- What is needed beside the invariant: the server runs, and the clients that have connected, finitely many, call
serviceable commands. -/
structure World.Live (E : Env κ δ) (d : δ) (n : Nat) (w : World δ) : Prop where
  inv : w.Inv E d
  running : w.listen.status = .running
  known : ∀ c, w.links c = none → w.listen.server.keys c = none
  bounded : ∀ c, n ≤ c → w.links c = none
  asks : ∀ c s command, w.links c = some s → commandOf s.phase = some command → Serviceable E command

theorem live_start (E : Env κ δ) (d : δ) (n : Nat) : (World.start d).Live E d n where
  inv := inv_start E d
  running := rfl
  known := fun _ _ => rfl
  bounded := fun _ _ => rfl
  asks := nofun

variable {d : δ} {n : Nat} {w w' : World δ}

theorem commandOf_of_written {p : Phase} {command : Str} (h : written p = some command) :
    commandOf p = some command := by
  cases p with
  | draining _ _ => exact h
  | reading _ _ => exact h
  | _ => cases h

/-! ## As long as a call is not at its end -/

/-- A write step of the world, where the server can answer. -/
theorem exists_served_write (hl : w.Live E d n) {c : Nat} {s : Link} {a : JString} {r : Answer × δ}
    {ps : List (MessagePart UInt8)} (hs : w.links c = some s) (hk : w.listen.server.keys c = some ⟨.opWrite, some a⟩)
    (ha : AnsweredBy E w.listen.server.flags a w.listen.server.dev r ps)
    (hread : w.listen.server.flags.mode ≠ .text → ∀ line, a = line ++ lit ";" →
      Readable (query E line w.listen.server.dev).1) : ∃ w', Served E w' w := by
  have hatt : w.attachment c = some a := by rw [World.attachment, hk]; rfl
  obtain ⟨ks, l', hwhole, h⟩ := exists_serve_write hl.running hk ha
  have hstep : ∃ w', worldStep E w (.write c ks) = some w' := by simp [worldStep, hs, h]
  obtain ⟨w', hw'⟩ := hstep
  refine ⟨w', .write c ks, trivial, ⟨fun ps' hps => ?_, fun hmode line hline => ?_⟩, hw'⟩
  · rw [hatt, ha.parts] at hps
    cases hps
    exact hwhole
  · rw [hatt] at hline
    exact hread hmode line (Option.some.inj hline)

/-- A client that waits can be answered. -/
theorem exists_served_waiting (hl : w.Live E d n) {c : Nat} (hwait : w.Waiting c) : ∃ w', Served E w' w := by
  obtain ⟨a, hk⟩ := hwait
  obtain ⟨a, -, rfl⟩ := hl.inv.wf.pending hk
  cases hs : w.links c with
  | none =>
    rw [hl.known c hs] at hk
    cases hk
  | some s =>
    have ht := hl.inv.talk c s hs
    rw [hk] at ht
    obtain ⟨-, -, command, hp, hcase⟩ := ht.waiting
    rcases hcase with ⟨r, rfl, hmode, -⟩ | ⟨line, rfl, hmode, hreq, -⟩
    · exact exists_served_write hl hs hk (text_answered E hmode r.reply _) fun hne => absurd hmode hne
    · have hread := (hl.asks c s command hs (commandOf_of_written hp)).2.2 w.listen.server.dev
      rw [hreq] at hread
      obtain ⟨ps, ha⟩ := query_answered E hmode (requestOf_query hreq).2 (semicolon_notMem_query hreq) fun _ =>
        length_of_readable hread
      refine exists_served_write hl hs hk ha fun _ line' hline => ?_
      obtain rfl : line = line' := List.append_cancel_right hline
      exact hread

/-- Where no client waits, a client that has asked can be read. -/
theorem exists_served_asked (hl : w.Live E d n) (hno : ∀ c, ¬ w.Waiting c) {c : Nat} {s : Link} {command : Str}
    (hs : w.links c = some s) (hp : written s.phase = some command) (hk : w.listen.server.keys c = some ⟨.opRead, none⟩)
    (hu : s.sent.drop (w.received c) = transmission command) : ∃ w', Served E w' w := by
  obtain ⟨hlen, htext, hread⟩ := hl.asks c s command hs (commandOf_of_written hp)
  have hunread : w.unread c = transmission command := by simp [World.unread, hs, hu]
  have hne : transmission command ≠ [] := by simp [transmission, encode, String.utf8EncodeChar]
  obtain ⟨l', h⟩ := exists_serve_read (E := E) hl.running hl.inv.wf hk hne hlen
  have hstep : ∃ w', worldStep E w (.read c (w.unread c).length) = some w' := by
    have hpos : 0 < (transmission command).length := List.length_pos_of_ne_nil hne
    simp [worldStep, hunread, h, hpos]
  obtain ⟨w', hw'⟩ := hstep
  refine ⟨w', .read c (w.unread c).length, trivial, ⟨rfl, ?_⟩, hw'⟩
  rw [hunread]
  cases hreq : requestOf E.charset (transmission command) with
  | batch lines =>
    have hread := hread w.listen.server.dev
    rw [hreq] at hread
    exact ⟨htext lines hreq, hl.inv.idle hno, hread⟩
  | query line => exact hno

/-- A step of the client itself. -/
theorem served_client {c : Nat} {s s' : Link} {e : Scpi.Event} (hs : w.links c = some s) (he : byClient e = true)
    (hserves : Serves (.client c e)) (hout : e ≠ .timeout) (h : linkStep s e = some s') : ∃ w', Served E w' w := by
  refine ⟨w.setLink c s', .client c e, hserves, fun ht => absurd ht hout, ?_⟩
  simp [worldStep, he, hs, h]

theorem readLine_isSome {s : Link} (h : lf ∈ s.buffer) (command : Str) (first : Nat) :
    ∃ s', s.readLine command first = some s' := by
  unfold Link.readLine
  rw [if_pos h]
  dsimp only
  split
  · exact ⟨_, rfl⟩
  · exact ⟨_, rfl⟩
  · exact ⟨_, rfl⟩

theorem lf_mem_wire (r : Response) : lf ∈ r.wire := by
  cases r with
  | text r => simp [Response.wire]
  | frame payload => simp [Response.wire, frame, lf]

/-- **As long as a call is not at its end**, a step that brings a call on is possible. -/
theorem exists_served (hl : w.Live E d n) {c : Nat} {s : Link} (hs : w.links c = some s) (hp : s.phase ≠ .idle) :
    ∃ w', Served E w' w := by
  have ht := hl.inv.talk c s hs
  -- bytes on the way can arrive
  have harrive : s.inflight ≠ [] → ∃ w', Served E w' w := by
    intro hi
    have hpos := List.length_pos_of_ne_nil hi
    exact served_client hs (e := .arrive s.inflight.length) rfl hpos (fun h => by cases h)
      (by rw [linkStep, if_pos (Nat.le_refl _)])
  cases hph : s.phase with
  | idle => exact absurd hph hp
  | started command => exact served_client hs (e := .write) rfl trivial (fun h => by cases h) (by rw [linkStep, hph])
  | draining command first =>
    exact served_client hs (e := .drained) rfl trivial (fun h => by cases h) (by rw [linkStep, hph])
  | reading command first =>
    have hw : written s.phase = some command := by rw [hph]; rfl
    cases ht with
    | resting hq => exact absurd hw (not_written hq command)
    | asked command' hw' hk hu hb hL =>
      by_cases hwait : ∃ c', w.Waiting c'
      · obtain ⟨c', hc'⟩ := hwait
        exact exists_served_waiting hl hc'
      · exact exists_served_asked hl (fun c' hc' => hwait ⟨c', hc'⟩) hs hw' hk hu
    | pending command' r hw' hk => exact exists_served_waiting hl ⟨_, hk⟩
    | queried command' line hw' hreq hk => exact exists_served_waiting hl ⟨_, hk⟩
    | answered command' r hr hw' hk hu hb hL =>
      by_cases hi : s.inflight = []
      · rw [hi, List.append_nil] at hb
        obtain ⟨s', h⟩ := readLine_isSome (hb ▸ lf_mem_wire r) command first
        exact served_client hs (e := .read) rfl trivial (fun h => by cases h) (by rw [linkStep, hph]; exact h)
      · exact harrive hi
    | receiving command' first' line payload hph' =>
      rw [hph] at hph'
      cases hph'
  | receiving command first line size =>
    cases ht with
    | resting hq => rw [hph] at hq; exact hq.elim
    | asked _ hw => rw [hph] at hw; cases hw
    | pending _ _ hw => rw [hph] at hw; cases hw
    | queried _ _ hw => rw [hph] at hw; cases hw
    | answered _ _ _ hw => rw [hph] at hw; cases hw
    | receiving command' first' line' payload hph' hk hu hb hL =>
      by_cases hi : s.inflight = []
      · rw [hph] at hph'
        cases hph'
        rw [hi, List.append_nil] at hb
        have h : readexactly payload.length s.buffer = some (payload, []) := by
          rw [hb]
          simp [readexactly]
        have hstep : linkStep s .read = some (Link.finish { s with buffer := [] } command (some first)
            (.returned line (.bytes payload))) := by
          simp [linkStep, hph, h]
        exact served_client hs (e := .read) rfl trivial (fun h => by cases h) hstep
      · exact harrive hi

/-! ## What is needed stays -/

theorem asks_client {s s' : Link} {e : Scpi.Event} {c : Nat} {command : Str} (ha : Asks E (.client c e))
    (hs : ∀ command, commandOf s.phase = some command → Serviceable E command) (h : linkStep s e = some s')
    (hc : commandOf s'.phase = some command) : Serviceable E command := by
  cases e with
  | call command' =>
    simp only [linkStep] at h
    split_ifs at h
    cases h
    cases hc
    exact ha
  | write =>
    simp only [linkStep] at h
    cases hph : s.phase with
    | started command' =>
      rw [hph] at h
      cases h
      cases hc
      exact hs command (by rw [hph]; rfl)
    | _ => rw [hph] at h; cases h
  | drained =>
    simp only [linkStep] at h
    cases hph : s.phase with
    | draining command' first =>
      rw [hph] at h
      cases h
      cases hc
      exact hs command (by rw [hph]; rfl)
    | _ => rw [hph] at h; cases h
  | read =>
    simp only [linkStep] at h
    cases hph : s.phase with
    | reading command' first =>
      rw [hph] at h
      unfold Link.readLine at h
      split_ifs at h
      dsimp only at h
      split at h
      · cases h
        cases hc
      · cases h
        cases hc
      · cases h
        cases hc
        exact hs command (by rw [hph]; rfl)
    | receiving command' first line m =>
      rw [hph] at h
      obtain ⟨_, -, rfl⟩ := Option.map_eq_some_iff.1 h
      cases hc
    | _ => rw [hph] at h; cases h
  | timeout =>
    simp only [linkStep, Link.cancel] at h
    cases hph : s.phase with
    | idle => rw [hph] at h; cases h
    | _ => rw [hph] at h; cases h; cases hc
  | answer r =>
    simp only [linkStep] at h
    split_ifs at h
    cases h
    exact hs command hc
  | arrive m =>
    simp only [linkStep] at h
    split_ifs at h
    cases h
    exact hs command hc

theorem links_none {c c' : Nat} {s : Link} (h : (w.setLink c s).links c' = none) : c' ≠ c ∧ w.links c' = none := by
  by_cases hcc : c' = c
  · rw [hcc, setLink_self] at h
    cases h
  · rw [setLink_other w hcc] at h
    exact ⟨hcc, h⟩

/-- The clients that have connected are below `n`. -/
theorem World.Live.below (hl : w.Live E d n) {c : Nat} {s : Link} (hs : w.links c = some s) : c < n := by
  by_contra hc
  rw [hl.bounded c (Nat.not_lt.1 hc)] at hs
  cases hs

theorem World.Live.bounded_setLink (hl : w.Live E d n) {c : Nat} (hc : c < n) (s : Link) :
    ∀ c', n ≤ c' → (w.setLink c s).links c' = none := by
  intro c' hc'
  have hcc : c' ≠ c := fun he => absurd (he ▸ hc') (Nat.not_le.2 hc)
  rw [setLink_other w hcc]
  exact hl.bounded c' hc'

theorem World.Live.asks_setLink (hl : w.Live E d n) (c : Nat) {s : Link}
    (hs : ∀ command, commandOf s.phase = some command → Serviceable E command) :
    ∀ c' s' command, (w.setLink c s).links c' = some s' → commandOf s'.phase = some command →
      Serviceable E command := by
  intro c' s' command hs' hcommand
  by_cases hcc : c' = c
  · rw [hcc, setLink_self] at hs'
    cases hs'
    exact hs command hcommand
  · rw [setLink_other w hcc] at hs'
    exact hl.asks c' s' command hs' hcommand

theorem live_connect (hl : w.Live E d n) {c : Nat} (hc : c < n) (hinv : w'.Inv E d)
    (h : worldStep E w (.connect c) = some w') : w'.Live E d n := by
  obtain ⟨-, -, rfl⟩ := connect_cases hl.inv.wf h
  refine ⟨hinv, rfl, fun c' hc' => ?_, hl.bounded_setLink hc _, ?_⟩
  · obtain ⟨hcc, hc'⟩ := links_none hc'
    exact (Function.update_of_ne hcc ..).trans (hl.known c' hc')
  · exact hl.asks_setLink c fun _ hcommand => by cases hcommand

theorem live_client (hl : w.Live E d n) {c : Nat} {e : Scpi.Event} (ha : Asks E (.client c e)) (hinv : w'.Inv E d)
    (h : worldStep E w (.client c e) = some w') : w'.Live E d n := by
  obtain ⟨-, s, s', hs, hstep, rfl⟩ := client_cases h
  exact ⟨hinv, hl.running, fun c' hc' => hl.known c' (links_none hc').2, hl.bounded_setLink (hl.below hs) s',
    hl.asks_setLink c fun _ hc => asks_client ha (fun command hcommand => hl.asks c s command hs hcommand) hstep hc⟩

theorem live_read (hl : w.Live E d n) {c m : Nat} (hinv : w'.Inv E d) (h : worldStep E w (.read c m) = some w') :
    w'.Live E d n := by
  obtain ⟨-, hk, rfl⟩ := read_cases hl.inv.wf h
  refine ⟨hinv, rfl, fun c' hc' => ?_, hl.bounded, hl.asks⟩
  have hcc : c' ≠ c := by
    rintro rfl
    rw [hl.known c' hc'] at hk
    cases hk
  show (if _ then Function.update _ _ _ else _ : Nat → Option Key) c' = none
  split_ifs
  · exact (Function.update_of_ne hcc ..).trans (hl.known c' hc')
  · exact hl.known c' hc'

theorem live_write (hl : w.Live E d n) {c : Nat} {ks : List Nat} (hinv : w'.Inv E d)
    (h : worldStep E w (.write c ks) = some w') : w'.Live E d n := by
  obtain ⟨s, a, d', sent, hs, -, -, rfl⟩ := write_cases hl.inv.wf h
  refine ⟨hinv, rfl, fun c' hc' => ?_, hl.bounded_setLink (hl.below hs) _, ?_⟩
  · obtain ⟨hcc, hc'⟩ := links_none hc'
    exact (Function.update_of_ne hcc ..).trans (hl.known c' hc')
  · exact hl.asks_setLink c fun command hcommand => hl.asks c s command hs hcommand

/-- The steps of a run: orderly, with serviceable commands, of clients below `n`. -/
def Proper (E : Env κ δ) (n : Nat) (w : World δ) (e : Event) : Prop :=
  Orderly E w e ∧ Asks E e ∧ ∀ c, e = .connect c → c < n

/-- **A step keeps what is needed.** -/
theorem live_step {e : Event} (hl : w.Live E d n) (hp : Proper E n w e) (h : worldStep E w e = some w') :
    w'.Live E d n := by
  obtain ⟨ho, ha, hc⟩ := hp
  have hinv := inv_step hl.inv ho h
  cases e with
  | connect c => exact live_connect hl (hc c rfl) hinv h
  | client c e => exact live_client hl ha hinv h
  | read c m => exact live_read hl hinv h
  | write c ks => exact live_write hl hinv h

/-! ## Every step brings a call on -/

def phaseRank : Phase → Nat
  | .idle => 0
  | .started _ => 10
  | .draining _ _ => 3
  | .reading _ _ => 2
  | .receiving _ _ _ _ => 1

def unreadRank : Bytes → Nat
  | [] => 0
  | _ :: _ => 2

def keyRank : Option Key → Nat
  | some ⟨.opWrite, _⟩ => 1
  | _ => 0

theorem unreadRank_le (u : Bytes) : unreadRank u ≤ 2 := by
  cases u with
  | nil => exact Nat.zero_le 2
  | cons _ _ => exact Nat.le_refl 2

theorem unreadRank_of_ne_nil {u : Bytes} (h : u ≠ []) : unreadRank u = 2 := by
  cases u with
  | nil => exact absurd rfl h
  | cons _ _ => rfl

theorem keyRank_le (k : Option Key) : keyRank k ≤ 1 := by
  unfold keyRank
  split
  · exact Nat.le_refl 1
  · exact Nat.zero_le 1

/-- How far a client is from the end of its call. -/
def World.stage (w : World δ) (c : Nat) : Nat :=
  match w.links c with
  | none => 0
  | some s => phaseRank s.phase + unreadRank (s.sent.drop (w.received c)) + keyRank (w.listen.server.keys c)

/-- The bytes that are still to arrive. -/
def World.load (w : World δ) (c : Nat) : Nat := ((w.links c).map fun s => s.inflight.length).getD 0

theorem stage_congr {c : Nat} (hl : w'.links c = w.links c) (hr : w'.received c = w.received c)
    (hk : w'.listen.server.keys c = w.listen.server.keys c) : w'.stage c = w.stage c := by
  unfold World.stage
  rw [hl, hr, hk]

theorem load_congr {c : Nat} (hl : w'.links c = w.links c) : w'.load c = w.load c := by
  unfold World.load
  rw [hl]

/-- A step of the client that serves its call brings the client's phase forward, or takes in bytes. -/
theorem client_forward {s s' : Link} {e : Scpi.Event} {c : Nat} (he : byClient e = true)
    (hserves : Serves (.client c e)) (h : linkStep s e = some s') :
    (phaseRank s'.phase + 2 < phaseRank s.phase) ∨
      (s'.sent = s.sent ∧ (phaseRank s'.phase < phaseRank s.phase ∨
        s'.phase = s.phase ∧ s'.inflight.length < s.inflight.length)) := by
  cases e with
  | call command => exact hserves.elim
  | answer r => cases he
  | write =>
    simp only [linkStep] at h
    cases hph : s.phase with
    | started command =>
      rw [hph] at h
      cases h
      exact .inl (by simp [phaseRank])
    | _ => rw [hph] at h; cases h
  | drained =>
    simp only [linkStep] at h
    cases hph : s.phase with
    | draining command first =>
      rw [hph] at h
      cases h
      exact .inr ⟨rfl, .inl (by simp [phaseRank])⟩
    | _ => rw [hph] at h; cases h
  | read =>
    simp only [linkStep] at h
    cases hph : s.phase with
    | reading command first =>
      rw [hph] at h
      unfold Link.readLine at h
      split_ifs at h
      dsimp only at h
      split at h
      · cases h
        exact .inr ⟨rfl, .inl (by simp [phaseRank, Link.finish])⟩
      · cases h
        exact .inr ⟨rfl, .inl (by simp [phaseRank, Link.finish])⟩
      · cases h
        exact .inr ⟨rfl, .inl (by simp [phaseRank])⟩
    | receiving command first line m =>
      rw [hph] at h
      obtain ⟨_, -, rfl⟩ := Option.map_eq_some_iff.1 h
      exact .inr ⟨rfl, .inl (by simp [phaseRank, Link.finish])⟩
    | _ => rw [hph] at h; cases h
  | timeout =>
    simp only [linkStep, Link.cancel] at h
    cases hph : s.phase with
    | idle => rw [hph] at h; cases h
    | _ => rw [hph] at h; cases h; exact .inr ⟨rfl, .inl (by simp [phaseRank, Link.finish])⟩
  | arrive m =>
    simp only [linkStep] at h
    split_ifs at h with hm
    cases h
    have hpos : 0 < m := hserves
    refine .inr ⟨rfl, .inr ⟨rfl, ?_⟩⟩
    show (s.inflight.drop m).length < s.inflight.length
    rw [List.length_drop]
    omega

theorem stage_of_link {c : Nat} {s : Link} (h : w.links c = some s) :
    w.stage c = phaseRank s.phase + unreadRank (s.sent.drop (w.received c)) + keyRank (w.listen.server.keys c) := by
  unfold World.stage
  rw [h]

theorem load_of_link {c : Nat} {s : Link} (h : w.links c = some s) : w.load c = s.inflight.length := by
  unfold World.load
  rw [h]
  rfl

theorem forward_client (hl : w.Live E d n) {c : Nat} {e : Scpi.Event} (hserves : Serves (.client c e))
    (hstep : worldStep E w (.client c e) = some w') : c < n ∧ Ranking.Forward World.stage World.load c w w' := by
  obtain ⟨he, s, s', hs, hlink, rfl⟩ := client_cases hstep
  have hs' := setLink_self w c s'
  refine ⟨hl.below hs, fun c' hcc => ?_, ?_⟩
  · have hother := setLink_other w hcc s'
    exact ⟨stage_congr hother rfl rfl, load_congr hother⟩
  · have hstage : (w.setLink c s').stage c =
        phaseRank s'.phase + unreadRank (s'.sent.drop (w.received c)) + keyRank (w.listen.server.keys c) :=
      stage_of_link hs'
    rw [hstage, stage_of_link hs, load_of_link hs, load_of_link hs']
    rcases client_forward he hserves hlink with hp | ⟨hsent, hp | ⟨hp, hload⟩⟩
    · have := unreadRank_le (s'.sent.drop (w.received c))
      left
      omega
    · left
      rw [hsent]
      omega
    · right
      rw [hsent, hp]
      exact ⟨rfl, hload⟩

theorem forward_read (hl : w.Live E d n) {c m : Nat} (ho : Orderly E w (.read c m))
    (hstep : worldStep E w (.read c m) = some w') : c < n ∧ Ranking.Forward World.stage World.load c w w' := by
  have hpos := (read_cases hl.inv.wf hstep).1
  obtain ⟨s, command, hs, -, hu, -, -, -, rfl⟩ := read_request hl.inv ho hstep
  have hne : s.sent.drop (w.received c) ≠ [] := by
    have hunread : w.unread c = s.sent.drop (w.received c) := by simp [World.unread, hs]
    rw [← hunread]
    exact List.ne_nil_of_length_pos (Nat.lt_of_lt_of_le hpos.1 hpos.2)
  refine ⟨hl.below hs, fun c' hcc => ⟨stage_congr rfl (received_other hcc) ?_, load_congr rfl⟩, .inl ?_⟩
  · show (if _ then Function.update _ _ _ else _ : Nat → Option Key) c' = _
    split_ifs
    · exact Function.update_of_ne hcc ..
    · rfl
  · -- all that was sent is read; the key turns to an answer at most
    have hs' : (w.afterRead E c s command).links c = some s := hs
    have := keyRank_le ((w.afterRead E c s command).listen.server.keys c)
    rw [stage_of_link hs', stage_of_link hs, drop_received, unreadRank_of_ne_nil hne]
    show phaseRank s.phase + 0 + _ < _
    omega

theorem forward_write (hl : w.Live E d n) {c : Nat} {ks : List Nat} (hstep : worldStep E w (.write c ks) = some w') :
    c < n ∧ Ranking.Forward World.stage World.load c w w' := by
  obtain ⟨s, a, d', sent, hs, hk, -, rfl⟩ := write_cases hl.inv.wf hstep
  refine ⟨hl.below hs, fun c' hcc => ⟨stage_congr (setLink_other _ hcc _) rfl (Function.update_of_ne hcc ..),
    load_congr (setLink_other _ hcc _)⟩, .inl ?_⟩
  have hkey : (w.listen.server.afterAnswer c (some a) d' sent).keys c = some ⟨.opRead, none⟩ :=
    Function.update_self ..
  rw [stage_of_link hs, hk, stage_of_link (setLink_self _ c _)]
  show phaseRank s.phase + unreadRank (s.sent.drop (w.received c)) +
    keyRank ((w.listen.server.afterAnswer c (some a) d' sent).keys c) < _
  rw [hkey]
  exact Nat.lt_succ_self _

/-- **A step that serves** brings one of the clients forward. -/
theorem served_forward (hl : w.Live E d n) (h : Served E w' w) :
    ∃ c < n, Ranking.Forward World.stage World.load c w w' := by
  obtain ⟨e, hserves, ho, hstep⟩ := h
  cases e with
  | connect c => exact hserves.elim
  | client c e => exact ⟨c, forward_client hl hserves hstep⟩
  | read c m => exact ⟨c, forward_read hl ho hstep⟩
  | write c ks => exact ⟨c, forward_write hl hstep⟩

/-! ## All calls are answered -/

theorem live_served (hl : w.Live E d n) (h : Served E w' w) : w'.Live E d n := by
  obtain ⟨e, hserves, ho, hstep⟩ := h
  refine live_step hl ⟨ho, ?_, ?_⟩ hstep
  · cases e with
    | client c e =>
      cases e with
      | call command => exact hserves.elim
      | _ => trivial
    | _ => trivial
  · rintro c rfl
    exact hserves.elim

theorem live_reach (hl : w.Live E d n) (h : Relation.ReflTransGen (fun v v' => Served E v' v) w w') :
    w'.Live E d n := by
  induction h with
  | refl => exact hl
  | tail _ h ih => exact live_served ih h

/-- **Every call is answered.** After an orderly run with serviceable commands, whatever steps follow that bring the
calls on, in any order: there is an end to them, and where there are no more, no client has a call, and what the log has
of each client are the answers of its calls. -/
theorem calls_answered (E : Env κ δ) (d : δ) {n : Nat} {es : List Event} {w : World δ}
    (hp : Along (Proper E n) (worldStep E) (.start d) es) (hw : run (worldStep E) (.start d) es = some w) :
    Acc (Served E) w ∧ ∀ w', Relation.ReflTransGen (fun v v' => Served E v' v) w w' → (∀ w'', ¬ Served E w'' w') →
      ∀ c s, w'.links c = some s → s.phase = .idle ∧ (∀ call ∈ s.calls, Settled call) ∧
        own c (w'.log E) = finished E.charset s.calls := by
  have hlive : w.Live E d n :=
    run_inv_along (I := fun w => w.Live E d n) (fun _ _ _ hI hP hs => live_step hI hP hs) hp hw (live_start E d n)
  refine ⟨Ranking.acc_of_forward (I := fun w => w.Live E d n)
    (fun v v' hv h => ⟨live_served hv h, served_forward hv h⟩) hlive, fun w' hreach hend c s hs => ?_⟩
  have hlive' := live_reach hlive hreach
  have hidle : s.phase = .idle := by
    by_contra hne
    obtain ⟨w'', h⟩ := exists_served hlive' hs hne
    exact hend w'' h
  have hrest := (hlive'.inv.talk c s hs).rests (by rw [hidle]; trivial)
  exact ⟨hidle, hlive'.inv.settled c s hs, hrest.2.2.2⟩

/-! ## Two calls under way -/

theorem serviceable_text : Serviceable fiveBench ['A'] := by
  have hreq : requestOf fiveBench.charset (transmission ['A']) = .batch [lit "A"] := by decide +kernel
  refine ⟨by decide +kernel, ?_, ?_⟩
  · rw [hreq]
    intro lines h
    cases h
    decide +kernel
  · rw [hreq]
    exact readable_unanalysed

theorem serviceable_query : Serviceable fiveBench ("*ADC?").toList := by
  have hreq : requestOf fiveBench.charset (transmission ("*ADC?").toList) = .query (lit "*ADC?") := by decide +kernel
  refine ⟨by decide +kernel, ?_, ?_⟩
  · rw [hreq]
    intro lines h
    cases h
  · rw [hreq]
    exact readable_five

/-- A text is ready for one client and data is asked for by the other. -/
theorem calls_answered_both : ∃ w, run (worldStep fiveBench) (.start ()) bothAsked = some w ∧
    (w.links 1).map (fun s => written s.phase) = some (some ['A']) ∧
    (w.links 2).map (fun s => written s.phase) = some (some ("*ADC?").toList) ∧ Acc (Served fiveBench) w := by
  obtain ⟨w, h⟩ := Option.isSome_iff_exists.1
    (by decide +kernel : (run (worldStep fiveBench) (.start ()) bothAsked).isSome = true)
  have hask : ∀ e ∈ bothAsked, Asks fiveBench e ∧ ∀ c, e = .connect c → c < 3 := by
    intro e he
    simp only [bothAsked, List.mem_cons, List.not_mem_nil, or_false] at he
    rcases he with rfl | rfl | rfl | rfl | rfl | rfl | rfl | rfl | rfl
    · exact ⟨trivial, fun c hc => by cases hc; decide⟩
    · exact ⟨trivial, fun c hc => by cases hc; decide⟩
    · exact ⟨serviceable_text, fun _ h => by cases h⟩
    · exact ⟨trivial, fun _ h => by cases h⟩
    · exact ⟨serviceable_query, fun _ h => by cases h⟩
    all_goals exact ⟨trivial, fun _ h => by cases h⟩
  have hproper : Along (Proper fiveBench 3) (worldStep fiveBench) (.start ()) bothAsked :=
    both_orderly.left.and (along_of_forall _ hask)
  have hone := of_run (fun w => (w.links 1).map fun s => written s.phase) (a := some (some ['A'])) (by decide +kernel) h
  have htwo := of_run (fun w => (w.links 2).map fun s => written s.phase) (a := some (some ("*ADC?").toList))
    (by decide +kernel) h
  exact ⟨w, h, hone, htwo, (calls_answered fiveBench () hproper h).1⟩

end OwonVds.Remote
