import OwonVds.Remote.World

/-!
# The remote clients see a serial instrument

`Orderly` leaves out what spoils a conversation: a client that gives up after it has written, a request read in pieces,
a query beside other requests, a header or a line that the channel cuts, an answer that the client cannot read. In a run
of orderly steps the answers that any number of clients receive, in any interleaving, are those of the instrument asked
for one request at a time (`clients_serial`).

`Talk` is where the conversation with one client stands. It says at every stage what is on the way: the request, the
reply that waits at the server, or the rest of the answer.
-/

namespace OwonVds.Remote

open Java (Bytes JString lit)
open Socket Scpi Serial Parts OwonVds.Trans

variable {κ δ : Type} {E : Env κ δ}

/-! ## Answers that a client can read -/

/-- The answer that a response is the wire form of. -/
def answerOf : Response → Answer
  | .text r => .text r.reply
  | .frame payload => .data payload.1

theorem valueOf_answerOf (r : Response) : valueOf (answerOf r) = r.value := by
  cases r <;> rfl

theorem wire_answerOf (cs : Java.Charset) (r : Response) : (answerOf r).wire cs = r.wire := by
  cases r with
  | text r => exact encode_reply cs r
  | frame payload => rfl

/-- What was sent of a response is its value. -/
theorem sentValue_wire (r : Response) : sentValue r.wire = r.value := by
  cases r with
  | frame payload => rfl
  | text r =>
    have hne : r.reply.map UInt16.toUInt8 ≠ [] := fun h => r.nonempty (List.map_eq_nil_iff.1 h)
    have hhead : (Response.text r).wire.head? ≠ some 0x23 := by
      rw [Response.wire, List.head?_append_of_ne_nil _ hne, List.head?_map]
      intro h
      obtain ⟨a, ha, h23⟩ := Option.map_eq_some_iff.1 h
      have hlt : a.toNat < 128 := UInt16.lt_iff_toNat_lt.1 (r.ascii a (List.mem_of_mem_head? ha))
      have ha23 : a = 0x23 := by
        rw [← UInt16.toNat_inj]
        have := congrArg UInt8.toNat h23
        rwa [UInt16.toNat_toUInt8, Nat.mod_eq_of_lt (by omega)] at this
      exact r.noHash (ha23 ▸ ha)
    have hline : sentValue (Response.text r).wire =
        .text ((Response.text r).wire.dropLast.map fun a => Char.ofNat a.toNat) := by
      unfold sentValue
      split
      · rename_i sent hsent
        rw [hsent] at hhead
        exact absurd rfl hhead
      · rfl
    rw [hline, Response.wire, List.dropLast_concat, List.map_map, Response.value]
    refine congrArg Value.text (List.map_congr_left fun a ha => ?_)
    have hlt : a.toNat < 128 := UInt16.lt_iff_toNat_lt.1 (r.ascii a ha)
    show Char.ofNat a.toUInt8.toNat = Char.ofNat a.toNat
    rw [UInt16.toNat_toUInt8, Nat.mod_eq_of_lt (by omega)]

/-- The client can read the answer: it is a text, or data of a plain length. -/
def Readable (a : Answer) : Prop := ∃ r : Response, r.Plain ∧ answerOf r = a

theorem text_of_readable {reply : JString} (h : Readable (.text reply)) : ∃ r : TextReply, r.reply = reply := by
  obtain ⟨r, -, hr⟩ := h
  cases r with
  | text r => exact ⟨r, Answer.text.inj hr⟩
  | frame payload => cases hr

/-- Data that can be read is short enough to be sent. -/
theorem length_of_readable {a : Answer} (h : Readable a) {payload : Bytes} (ha : a = .data payload) :
    payload.length < 0x80000000 := by
  obtain ⟨r, -, hr⟩ := h
  subst ha
  cases r with
  | text r => cases hr
  | frame buf =>
    cases hr
    exact buf.2

/-! ## Orderly steps -/

/-- The server has an answer for the client. -/
def World.Waiting (w : World δ) (c : Nat) : Prop := ∃ a, w.listen.server.keys c = some ⟨.opWrite, a⟩

def World.attachment (w : World δ) (c : Nat) : Option JString := (w.listen.server.keys c).bind Key.attachment

/-- A step that spoils no conversation. A call gives up before it writes only. A request is read whole; it is a batch of
text commands with a reply in text, and no query is being answered, or it is a query, and nothing is. The channel takes
all of a line and of the header of a frame, and the answer to a query is a text or data of a plain length. -/
def Orderly (E : Env κ δ) (w : World δ) : Event → Prop
  | .connect _ => True
  | .client c e => e = .timeout → ∀ s, w.links c = some s → ∃ command, s.phase = .started command
  | .read c n => n = (w.unread c).length ∧
    match requestOf E.charset (w.unread c) with
    | .batch lines => (∀ line ∈ lines, kindOf line = .text) ∧ w.listen.server.flags.mode = .text ∧
        Readable (answerTo E (.batch lines) w.listen.server.dev).1
    | .query _ => ∀ c', ¬ w.Waiting c'
  | .write c ks =>
    (∀ ps, responseParts E w.listen.server.flags (w.attachment c) w.listen.server.dev = some ps → OnceWhole ps ks) ∧
      (w.listen.server.flags.mode ≠ .text → ∀ line, w.attachment c = some (line ++ lit ";") →
        Readable (query E line w.listen.server.dev).1)

/-! ## Where a conversation stands -/

/-- The calls that returned a value, each with its request. -/
def finished (cs : Java.Charset) (calls : List Call) : List (Request × Value) :=
  calls.filterMap fun call =>
    match call.outcome with
    | .returned _ v => some (requestOf cs (transmission call.command), v)
    | _ => none

/-- The call has returned a value, or has given up with nothing written. -/
def Settled (call : Call) : Prop :=
  (call.first = none ∧ call.outcome = .timedOut) ∨ ∃ k v, call.outcome = .returned k v

/-- No call has written and waits. -/
def Quiet : Phase → Prop
  | .idle => True
  | .started _ => True
  | _ => False

/-- The command that was written, before a line of the answer is read. -/
def written : Phase → Option Str
  | .draining command _ => some command
  | .reading command _ => some command
  | _ => none

/-- The stage of the conversation with a client: `mode` is that of the server's next answer, `k` the client's key, `u`
what the server has not read, `L` what the log has of the client. -/
inductive Talk (cs : Java.Charset) (mode : Mode) (k : Option Key) (u : Bytes) (s : Link) (L : List (Request × Value)) :
    Prop
  | resting (hp : Quiet s.phase) (hk : k = some ⟨.opRead, none⟩) (hu : u = []) (hb : s.buffer ++ s.inflight = [])
      (hL : L = finished cs s.calls)
  | asked (command : Str) (hp : written s.phase = some command) (hk : k = some ⟨.opRead, none⟩)
      (hu : u = transmission command) (hb : s.buffer ++ s.inflight = []) (hL : L = finished cs s.calls)
  | pending (command : Str) (r : TextReply) (hp : written s.phase = some command)
      (hk : k = some ⟨.opWrite, some r.reply⟩) (hmode : mode = .text) (hu : u = []) (hb : s.buffer ++ s.inflight = [])
      (hL : L = finished cs s.calls ++ [(requestOf cs (transmission command), (Response.text r).value)])
  | queried (command : Str) (line : JString) (hp : written s.phase = some command)
      (hreq : requestOf cs (transmission command) = .query line) (hk : k = some ⟨.opWrite, some (line ++ lit ";")⟩)
      (hmode : mode = (kindOf line).mode) (hu : u = []) (hb : s.buffer ++ s.inflight = [])
      (hL : L = finished cs s.calls)
  | answered (command : Str) (r : Response) (hr : r.Plain) (hp : written s.phase = some command)
      (hk : k = some ⟨.opRead, none⟩) (hu : u = []) (hb : s.buffer ++ s.inflight = r.wire)
      (hL : L = finished cs s.calls ++ [(requestOf cs (transmission command), r.value)])
  | receiving (command : Str) (first line : Nat) (payload : Bytes)
      (hp : s.phase = .receiving command first line payload.length) (hk : k = some ⟨.opRead, none⟩) (hu : u = [])
      (hb : s.buffer ++ s.inflight = payload)
      (hL : L = finished cs s.calls ++ [(requestOf cs (transmission command), .bytes payload)])

/-- A client that has an answer at the server waits in one of two stages. -/
theorem Talk.waiting {cs : Java.Charset} {mode : Mode} {a : JString} {u : Bytes} {s : Link} {L : List (Request × Value)}
    (h : Talk cs mode (some ⟨.opWrite, some a⟩) u s L) :
    u = [] ∧ s.buffer ++ s.inflight = [] ∧ ∃ command, written s.phase = some command ∧
      ((∃ r : TextReply, a = r.reply ∧ mode = .text ∧
          L = finished cs s.calls ++ [(requestOf cs (transmission command), (Response.text r).value)]) ∨
        ∃ line, a = line ++ lit ";" ∧ mode = (kindOf line).mode ∧
          requestOf cs (transmission command) = .query line ∧ L = finished cs s.calls) := by
  cases h with
  | resting hp hk => cases hk
  | asked command hp hk => cases hk
  | pending command r hp hk hmode hu hb hL =>
    cases hk
    exact ⟨hu, hb, command, hp, .inl ⟨r, rfl, hmode, hL⟩⟩
  | queried command line hp hreq hk hmode hu hb hL =>
    cases hk
    exact ⟨hu, hb, command, hp, .inr ⟨line, rfl, hmode, hreq, hL⟩⟩
  | answered command r hr hp hk => cases hk
  | receiving command first line payload hp hk => cases hk

/-! ## The steps of a client -/

section Client

variable {cs : Java.Charset} {mode : Mode} {k : Option Key} {u : Bytes} {s s' : Link} {L : List (Request × Value)}

theorem finished_concat (calls : List Call) (command : Str) (first : Option Nat) (i : Nat) (v : Value) :
    finished cs (calls ++ [⟨command, first, .returned i v⟩]) =
      finished cs calls ++ [(requestOf cs (transmission command), v)] := by
  simp [finished]

theorem finished_timedOut (calls : List Call) (command : Str) :
    finished cs (calls ++ [⟨command, none, .timedOut⟩]) = finished cs calls := by
  simp [finished]

theorem not_written {p : Phase} (hp : Quiet p) (command : Str) : written p ≠ some command := by
  cases p with
  | idle => exact nofun
  | started _ => exact nofun
  | draining _ _ => exact hp.elim
  | reading _ _ => exact hp.elim
  | receiving _ _ _ _ => exact hp.elim

/-- A client that has not written rests. -/
theorem Talk.rests (h : Talk cs mode k u s L) (hp : Quiet s.phase) :
    k = some ⟨.opRead, none⟩ ∧ u = [] ∧ s.buffer ++ s.inflight = [] ∧ L = finished cs s.calls := by
  have hno := not_written hp
  cases h with
  | resting _ hk hu hb hL => exact ⟨hk, hu, hb, hL⟩
  | asked command hw => exact absurd hw (hno command)
  | pending command r hw => exact absurd hw (hno command)
  | queried command line hw => exact absurd hw (hno command)
  | answered command r hr hw => exact absurd hw (hno command)
  | receiving command first line payload hph =>
    rw [hph] at hp
    exact hp.elim

/-- A client with bytes of an answer has one, and all of the rest. -/
theorem Talk.answer {command : Str} (h : Talk cs mode k u s L) (hp : written s.phase = some command)
    (hb : s.buffer ≠ []) : ∃ r : Response, r.Plain ∧ k = some ⟨.opRead, none⟩ ∧ u = [] ∧
      s.buffer ++ s.inflight = r.wire ∧
      L = finished cs s.calls ++ [(requestOf cs (transmission command), r.value)] := by
  have hne : s.buffer ++ s.inflight ≠ [] := fun h => hb (List.append_eq_nil_iff.1 h).1
  cases h with
  | resting hq => exact absurd hp (not_written hq command)
  | asked _ _ _ _ hnil => exact absurd hnil hne
  | pending _ _ _ _ _ _ hnil => exact absurd hnil hne
  | queried _ _ _ _ _ _ _ hnil => exact absurd hnil hne
  | answered command' r hr hw hk hu hwire hL =>
    rw [hp] at hw
    cases hw
    exact ⟨r, hr, hk, hu, hwire, hL⟩
  | receiving _ _ _ _ hph =>
    rw [hph] at hp
    cases hp

theorem lf_notMem_reply (r : TextReply) : lf ∉ r.reply.map UInt16.toUInt8 := by
  intro h
  obtain ⟨c, hc, hlf⟩ := List.mem_map.1 h
  have hlt : c.toNat < 128 := UInt16.lt_iff_toNat_lt.1 (r.ascii c hc)
  have hc10 : c = 0x0A := by
    rw [← UInt16.toNat_inj]
    have := congrArg UInt8.toNat hlf
    rw [UInt16.toNat_toUInt8, Nat.mod_eq_of_lt (by omega)] at this
    exact this
  exact r.noLineFeed (hc10 ▸ hc)

/-- The line of a text answer is the text. -/
theorem header_text (r : TextReply) : header (r.reply.map UInt16.toUInt8 ++ [lf]) = .ok (.text (chars r.reply)) := by
  have h := exact_text r []
  rw [List.append_nil] at h
  unfold readOk Scpi.read at h
  rw [Response.wire, readline_line (lf_notMem_reply r)] at h
  cases hh : header (r.reply.map UInt16.toUInt8 ++ [lf]) with
  | error e =>
    simp only [hh] at h
    cases h
  | ok v =>
    cases v with
    | text t =>
      simp only [hh, Response.value, Option.some.injEq, Prod.mk.injEq, Value.text.injEq, and_true] at h
      rw [h]
    | size n =>
      simp only [hh] at h
      cases hx : readexactly n [] with
      | none =>
        rw [hx] at h
        cases h
      | some p =>
        rw [hx] at h
        cases h

/-- The line of a frame is its length. -/
theorem header_frame {payload : Java.Bytes} (hlen : payload.length < 0x80000000) (h : PlainLength payload.length) :
    lf ∉ (0x23 :: putInt payload.length : Bytes) ∧
      header (0x23 :: putInt payload.length ++ [lf]) = .ok (.size payload.length) := by
  obtain ⟨hno, hlast⟩ := h
  have hstrip : rstrip (putInt payload.length) = (putInt payload.length).take 4 := by
    refine rstrip_self fun a ha => ?_
    cases ha
    exact hlast
  refine ⟨by simpa using ⟨by decide, hno⟩, ?_⟩
  have hh := header_size (by omega) hstrip (Nat.le_refl 4)
  simpa using hh

/-- **The client reads the line** of the answer that is on its way: it returns a text, or waits for the payload. -/
theorem talk_line {command : Str} {first : Nat} (ht : Talk cs mode k u s L) (hp : s.phase = .reading command first)
    (hs : ∀ call ∈ s.calls, Settled call) (h : s.readLine command first = some s') :
    s'.sent = s.sent ∧ (∀ call ∈ s'.calls, Settled call) ∧ Talk cs mode k u s' L := by
  unfold Link.readLine at h
  split_ifs at h with hlf
  have hwritten : written s.phase = some command := by rw [hp]; rfl
  obtain ⟨r, hr, hk, hu, hwire, hL⟩ := ht.answer hwritten (List.ne_nil_of_mem hlf)
  cases r with
  | text r =>
    have hno := lf_notMem_reply r
    obtain ⟨b, hb, hbi⟩ := buffer_line (t := []) hwire hno hlf
    obtain ⟨rfl, hi⟩ := List.append_eq_nil_iff.1 hbi
    rw [hb, readline_line hno] at h
    simp only [header_text] at h
    cases h
    refine ⟨rfl, List.forall_mem_append.2 ⟨hs, List.forall_mem_singleton.2 (.inr ⟨_, _, rfl⟩)⟩, ?_⟩
    refine .resting trivial hk hu hi ?_
    rw [hL]
    exact (finished_concat s.calls command (some first) s.linesRead _).symm
  | frame payload =>
    obtain ⟨hno, hh⟩ := header_frame payload.2 hr
    have hsplit : s.buffer ++ s.inflight = (0x23 :: putInt payload.1.length) ++ lf :: payload.1 := by
      rw [hwire]
      simp [Response.wire, frame, lf]
    obtain ⟨b, hb, hbi⟩ := buffer_line hsplit hno hlf
    rw [hb, readline_line hno] at h
    simp only [hh] at h
    cases h
    exact ⟨rfl, hs, .receiving command first s.linesRead payload.1 rfl hk hu hbi hL⟩

/-- The client reads the payload. -/
theorem talk_payload {command : Str} {first line n : Nat} {b rest : Bytes} (ht : Talk cs mode k u s L)
    (hp : s.phase = .receiving command first line n) (h : readexactly n s.buffer = some (b, rest)) :
    Talk cs mode k u (Link.finish { s with buffer := rest } command (some first) (.returned line (.bytes b))) L := by
  cases ht with
  | resting hq => rw [hp] at hq; exact hq.elim
  | asked _ hw => rw [hp] at hw; cases hw
  | pending _ _ hw => rw [hp] at hw; cases hw
  | queried _ _ hw => rw [hp] at hw; cases hw
  | answered _ _ _ hw => rw [hp] at hw; cases hw
  | receiving command' first' line' payload hph hk hu hb hL =>
    rw [hp] at hph
    cases hph
    unfold readexactly at h
    split_ifs at h with hn
    cases h
    have hlen := congrArg List.length hb
    rw [List.length_append] at hlen
    have hi : s.inflight = [] := List.eq_nil_of_length_eq_zero (by omega)
    rw [hi, List.append_nil] at hb
    refine .resting trivial hk hu ?_ ?_
    · show s.buffer.drop payload.length ++ s.inflight = []
      rw [hi, hb]
      simp
    · rw [hL, hb, List.take_length]
      exact (finished_concat s.calls command (some first) line _).symm

/-- What the client sends and what it has read of the line do not change. -/
theorem Talk.frame (ht : Talk cs mode k u s L) (hp : written s'.phase = written s.phase)
    (hq : Quiet s.phase → Quiet s'.phase) (hr : ∀ command first line n, s.phase = .receiving command first line n →
      s'.phase = .receiving command first line n) (hb : s'.buffer ++ s'.inflight = s.buffer ++ s.inflight)
    (hc : s'.calls = s.calls) : Talk cs mode k u s' L := by
  cases ht with
  | resting h hk hu hn hL => exact .resting (hq h) hk hu (hb.trans hn) (by rw [hL, hc])
  | asked command h hk hu hn hL => exact .asked command (hp.trans h) hk hu (hb.trans hn) (by rw [hL, hc])
  | pending command r h hk hl hu hn hL => exact .pending command r (hp.trans h) hk hl hu (hb.trans hn) (by rw [hL, hc])
  | queried command line h hreq hk hl hu hn hL =>
    exact .queried command line (hp.trans h) hreq hk hl hu (hb.trans hn) (by rw [hL, hc])
  | answered command r hplain h hk hu hw hL =>
    exact .answered command r hplain (hp.trans h) hk hu (hb.trans hw) (by rw [hL, hc])
  | receiving command first line payload h hk hu hn hL =>
    exact .receiving command first line payload (hr _ _ _ _ h) hk hu (hb.trans hn) (by rw [hL, hc])

/-- The client writes its command: it has asked. -/
theorem talk_write {command : Str} {n : Nat} (ht : Talk cs mode k (s.sent.drop n) s L) (hn : n ≤ s.sent.length)
    (hp : s.phase = .started command) (h : linkStep s .write = some s') :
    Talk cs mode k (s'.sent.drop n) s' L ∧ n ≤ s'.sent.length ∧ s'.calls = s.calls := by
  simp only [linkStep, hp] at h
  cases h
  obtain ⟨hk, hu, hb, hL⟩ := ht.rests (by rw [hp]; trivial)
  have hlen : n = s.sent.length := by
    have := congrArg List.length hu
    rw [List.length_drop, List.length_nil] at this
    omega
  refine ⟨.asked command rfl hk ?_ hb hL, ?_, rfl⟩
  · rw [hlen]
    exact List.drop_left
  · rw [List.length_append]
    omega

/-- The client gives up before it has written. -/
theorem talk_timeout {command : Str} (ht : Talk cs mode k u s L) (hp : s.phase = .started command)
    (hs : ∀ call ∈ s.calls, Settled call) (h : linkStep s .timeout = some s') :
    s'.sent = s.sent ∧ (∀ call ∈ s'.calls, Settled call) ∧ Talk cs mode k u s' L := by
  simp only [linkStep, Link.cancel, hp] at h
  cases h
  obtain ⟨hk, hu, hb, hL⟩ := ht.rests (by rw [hp]; trivial)
  refine ⟨rfl, List.forall_mem_append.2 ⟨hs, List.forall_mem_singleton.2 (.inl ⟨rfl, rfl⟩)⟩,
    .resting trivial hk hu hb ?_⟩
  rw [hL]
  exact (finished_timedOut s.calls command).symm

/-- **A step of the client** keeps the conversation, if the client gives up before it writes only. -/
theorem talk_client {e : Scpi.Event} {n : Nat} (he : byClient e = true)
    (hout : e = .timeout → ∃ command, s.phase = .started command) (ht : Talk cs mode k (s.sent.drop n) s L)
    (hn : n ≤ s.sent.length) (hs : ∀ call ∈ s.calls, Settled call) (h : linkStep s e = some s') :
    Talk cs mode k (s'.sent.drop n) s' L ∧ n ≤ s'.sent.length ∧ ∀ call ∈ s'.calls, Settled call := by
  cases e with
  | answer r => cases he
  | call command =>
    simp only [linkStep] at h
    split_ifs at h with hph
    cases h
    refine ⟨ht.frame ?_ (fun _ => trivial) ?_ rfl rfl, hn, hs⟩
    · rw [hph]
      rfl
    · intro _ _ _ _ hr
      rw [hph] at hr
      cases hr
  | write =>
    cases hph : s.phase with
    | started command =>
      obtain ⟨ht', hn', hc⟩ := talk_write ht hn hph h
      exact ⟨ht', hn', hc ▸ hs⟩
    | _ => rw [linkStep, hph] at h; cases h
  | drained =>
    cases hph : s.phase with
    | draining command first =>
      simp only [linkStep, hph] at h
      cases h
      refine ⟨ht.frame ?_ ?_ ?_ rfl rfl, hn, hs⟩
      · rw [hph]
        rfl
      · rw [hph]
        exact False.elim
      · intro _ _ _ _ hr
        rw [hph] at hr
        cases hr
    | _ => rw [linkStep, hph] at h; cases h
  | read =>
    cases hph : s.phase with
    | reading command first =>
      rw [linkStep, hph] at h
      obtain ⟨hsent, hs', ht'⟩ := talk_line ht hph hs h
      rw [hsent]
      exact ⟨ht', hn, hs'⟩
    | receiving command first line m =>
      rw [linkStep, hph] at h
      obtain ⟨⟨b, rest⟩, hb, rfl⟩ := Option.map_eq_some_iff.1 h
      exact ⟨talk_payload ht hph hb, hn,
        List.forall_mem_append.2 ⟨hs, List.forall_mem_singleton.2 (.inr ⟨_, _, rfl⟩)⟩⟩
    | _ => rw [linkStep, hph] at h; cases h
  | timeout =>
    obtain ⟨command, hph⟩ := hout rfl
    obtain ⟨hsent, hs', ht'⟩ := talk_timeout ht hph hs h
    rw [hsent]
    exact ⟨ht', hn, hs'⟩
  | arrive m =>
    simp only [linkStep] at h
    split_ifs at h with hm
    cases h
    refine ⟨ht.frame rfl id (fun _ _ _ _ => id) ?_ rfl, hn, hs⟩
    rw [List.append_assoc, List.take_append_drop]

end Client

/-! ## The steps of the server -/

theorem requestOf_batch {cs : Java.Charset} {chunk : Bytes} {lines : List JString}
    (h : requestOf cs chunk = .batch lines) : chunkLines cs chunk = lines := by
  unfold requestOf at h
  split at h
  · rename_i line hl
    split_ifs at h
    cases h
    exact hl
  · cases h
    rfl

theorem requestOf_query {cs : Java.Charset} {chunk : Bytes} {line : JString} (h : requestOf cs chunk = .query line) :
    chunkLines cs chunk = [line] ∧ kindOf line ≠ .text := by
  unfold requestOf at h
  split at h
  · rename_i line' hl
    split_ifs at h with hk
    cases h
    exact ⟨hl, hk⟩
  · cases h

/-- The line of a query is one of the chunk, so that there is no `;` in it. -/
theorem semicolon_notMem_query {cs : Java.Charset} {chunk : Bytes} {line : JString}
    (h : requestOf cs chunk = .query line) : Java.semicolon ∉ line :=
  semicolon_notMem ((requestOf_query h).1 ▸ List.mem_singleton_self line)

theorem chunkTranslation_dev (s : Server δ) (chunk : Bytes) :
    (chunkTranslation E s chunk).2.2 = (replies E.factory (chunkLines E.charset chunk) s.dev).2 := by
  unfold chunkTranslation
  rw [translation_eq]
  rfl

/-- The read of a batch of text commands answers it at once. -/
theorem afterChunk_batch {c : Nat} {s : Server δ} {chunk : Bytes} {lines : List JString}
    (hreq : requestOf E.charset chunk = .batch lines) (htext : ∀ line ∈ lines, kindOf line = .text) {r : TextReply}
    (hr : r.reply = replyTo E.factory lines s.dev) :
    (s.afterChunk E c chunk).flags = s.flags ∧ (s.afterChunk E c chunk).dev = (replies E.factory lines s.dev).2 ∧
      (s.afterChunk E c chunk).keys = Function.update s.keys c (some ⟨.opWrite, some r.reply⟩) ∧
      logOf E.charset (s.afterChunk E c chunk).history =
        logOf E.charset s.history ++ [(c, .batch lines, (Response.text r).value)] := by
  have hlines := requestOf_batch hreq
  have hreply : (chunkTranslation E s chunk).1 = r.reply := by
    rw [chunkTranslation_reply, hlines, hr]
    rfl
  refine ⟨?_, ?_, ?_, ?_⟩
  · rw [afterChunk_flags, hlines]
    exact foldl_mark_text (fun k hk => by obtain ⟨line, hl, rfl⟩ := List.mem_map.1 hk; exact htext line hl) s.flags
  · rw [← hlines]
    exact chunkTranslation_dev s chunk
  · show (if (chunkTranslation E s chunk).1 ≠ [] then _ else _) = _
    rw [hreply, if_pos r.nonempty]
  · show logOf E.charset (s.history ++ [.chunk c chunk (chunkTranslation E s chunk).1]) = _
    rw [hreply, logOf_append]
    simp [logOf, logEntry, hreq, Response.value]

/-- The read of a query raises the flags of its kind. -/
theorem afterChunk_query {c : Nat} {s : Server δ} {chunk : Bytes} {line : JString}
    (hreq : requestOf E.charset chunk = .query line) :
    (s.afterChunk E c chunk).flags = s.flags.mark (kindOf line) ∧ (s.afterChunk E c chunk).dev = s.dev ∧
      (s.afterChunk E c chunk).keys = Function.update s.keys c (some ⟨.opWrite, some (line ++ lit ";")⟩) ∧
      logOf E.charset (s.afterChunk E c chunk).history = logOf E.charset s.history := by
  obtain ⟨hlines, hkind⟩ := requestOf_query hreq
  have hreply : (chunkTranslation E s chunk).1 = line ++ lit ";" := by
    rw [chunkTranslation_reply, hlines]
    exact reply_single hkind s.dev
  refine ⟨?_, ?_, ?_, ?_⟩
  · rw [afterChunk_flags, hlines]
    rfl
  · refine (chunkTranslation_dev s chunk).trans ?_
    rw [hlines]
    show afterLine E.factory line s.dev = s.dev
    unfold afterLine
    rw [if_neg hkind]
  · show (if (chunkTranslation E s chunk).1 ≠ [] then _ else _) = _
    rw [hreply, if_pos (by simp [Java.lit_semicolon])]
  · show logOf E.charset (s.history ++ [.chunk c chunk (chunkTranslation E s chunk).1]) = _
    rw [logOf_append]
    simp [logOf, logEntry, hreq]

/-- **What a write step sends**, when the channel takes the whole of what is offered once, and what it does to the
instrument. -/
theorem answer_sent {c : Nat} {cmd : JString} {s : Server δ} {d' : δ} {sent : Bytes} {ks : List Nat}
    {r : Answer × δ} {ps : List (MessagePart UInt8)} (hk : s.keys c = some ⟨.opWrite, some cmd⟩)
    (ha : AnsweredBy E s.flags cmd s.dev r ps)
    (h : writeStep E c (ks.map some) s = .ok () (s.afterAnswer c (some cmd) d' sent)) (hwhole : OnceWhole ps ks) :
    d' = r.2 ∧ sent = r.1.wire E.charset := by
  have hstep := h
  unfold writeStep at h
  rw [Exec.get_bind, hk] at h
  obtain ⟨⟨mode, acts, sent'⟩, u, hd, -⟩ := Exec.ok_bind.1 h
  obtain ⟨ps', hps', hs⟩ := dispatch_emits hd
  obtain rfl : ps = ps' := Option.some.inj (ha.parts.symm.trans hps')
  rw [writeStep_sends hk ha.emits hs] at hstep
  have hserver : s.afterAnswer c (some cmd) r.2 sent' = s.afterAnswer c (some cmd) d' sent := by
    injection hstep
  have hsent : sent' = sent := by simpa [Server.afterAnswer] using congrArg Server.history hserver
  rw [← hsent, (send_whole_iff hs).2 hwhole]
  exact ⟨(congrArg Server.dev hserver).symm, ha.whole⟩

/-- The entry of an answer: a text has none, and a query its own. -/
theorem afterAnswer_log {c : Nat} {cs : Java.Charset} {s : Server δ} {cmd : JString} {d' : δ} {sent : Bytes} :
    logOf cs (s.afterAnswer c (some cmd) d' sent).history = logOf cs s.history ++
      if s.flags.mode = .text then [] else [(c, .query cmd.dropLast, sentValue sent)] := by
  show logOf cs (s.history ++ [.answer c cmd s.flags.mode (actsOf s.flags (some cmd)) sent]) = _
  rw [logOf_append]
  by_cases hm : s.flags.mode = .text
  · simp [logOf, logEntry, hm]
  · simp [logOf, logEntry, hm]

/-! ## The invariant -/

/-- The log is that of a serial instrument, and every conversation stands where it says. While a query is answered one
client waits, and no other. -/
structure World.Inv (E : Env κ δ) (d : δ) (w : World δ) : Prop where
  wf : w.listen.server.Wf
  single : w.listen.server.flags.Single
  busy : w.listen.server.flags.mode ≠ .text → ∃ c, w.Waiting c ∧ ∀ c', w.Waiting c' → c' = c
  legal : Legal (ask E) d (w.log E) w.listen.server.dev
  away : ∀ c, w.links c = none → w.received c = 0 ∧ own c (w.log E) = []
  count : ∀ c s, w.links c = some s → w.received c ≤ s.sent.length
  settled : ∀ c s, w.links c = some s → ∀ call ∈ s.calls, Settled call
  talk : ∀ c s, w.links c = some s → Talk E.charset w.listen.server.flags.mode (w.listen.server.keys c)
    (s.sent.drop (w.received c)) s (own c (w.log E))

theorem inv_start (E : Env κ δ) (d : δ) : (World.start d).Inv E d where
  wf := fresh_wf d
  single := fun h => by cases h
  busy := fun h => absurd rfl h
  legal := rfl
  away := fun _ _ => ⟨rfl, rfl⟩
  count := fun _ _ h => by cases h
  settled := fun _ _ h => by cases h
  talk := fun _ _ h => by cases h

variable {w w' : World δ} {d : δ}

/-- Where nobody waits, no query is being answered. -/
theorem World.Inv.idle (hw : w.Inv E d) (h : ∀ c, ¬ w.Waiting c) : w.listen.server.flags.mode = .text := by
  by_contra hm
  obtain ⟨c, hc, -⟩ := hw.busy hm
  exact h c hc

/-- Where a client does not wait for an answer, the mode of the server does not matter. -/
theorem Talk.mode {cs : Java.Charset} {mode mode' : Mode} {k : Option Key} {u : Bytes} {s : Link}
    {L : List (Request × Value)} (h : Talk cs mode k u s L) (hk : ∀ a, k ≠ some ⟨.opWrite, a⟩) :
    Talk cs mode' k u s L := by
  cases h with
  | resting hp hk hu hb hL => exact .resting hp hk hu hb hL
  | asked command hp hk hu hb hL => exact .asked command hp hk hu hb hL
  | pending command r hp hk' => exact absurd hk' (hk _)
  | queried command line hp hreq hk' => exact absurd hk' (hk _)
  | answered command r hr hp hk hu hb hL => exact .answered command r hr hp hk hu hb hL
  | receiving command first line payload hp hk hu hb hL => exact .receiving command first line payload hp hk hu hb hL

/-- What is not client `c`'s stays as it is; a change of the mode meets nobody who waits. -/
structure Elsewhere (E : Env κ δ) (c : Nat) (w w' : World δ) : Prop where
  links : ∀ c', c' ≠ c → w'.links c' = w.links c'
  received : ∀ c', c' ≠ c → w'.received c' = w.received c'
  keys : ∀ c', c' ≠ c → w'.listen.server.keys c' = w.listen.server.keys c'
  log : ∀ c', c' ≠ c → own c' (w'.log E) = own c' (w.log E)
  mode : w'.listen.server.flags.mode = w.listen.server.flags.mode ∨ ∀ c', c' ≠ c → ¬ w.Waiting c'

/-- A step that concerns one client keeps the invariant if it keeps it for this client. -/
theorem World.Inv.step {c : Nat} {s : Link} (hw : w.Inv E d) (he : Elsewhere E c w w') (wf : w'.listen.server.Wf)
    (single : w'.listen.server.flags.Single)
    (busy : w'.listen.server.flags.mode ≠ .text → ∃ c, w'.Waiting c ∧ ∀ c', w'.Waiting c' → c' = c)
    (legal : Legal (ask E) d (w'.log E) w'.listen.server.dev) (hs : w'.links c = some s)
    (count : w'.received c ≤ s.sent.length) (settled : ∀ call ∈ s.calls, Settled call)
    (talk : Talk E.charset w'.listen.server.flags.mode (w'.listen.server.keys c) (s.sent.drop (w'.received c)) s
      (own c (w'.log E))) : w'.Inv E d := by
  refine ⟨wf, single, busy, legal, ?_, ?_, ?_, ?_⟩
  · intro c' hc'
    by_cases hcc : c' = c
    · subst hcc
      rw [hs] at hc'
      cases hc'
    · rw [he.links c' hcc] at hc'
      rw [he.received c' hcc, he.log c' hcc]
      exact hw.away c' hc'
  · intro c' s' hs'
    by_cases hcc : c' = c
    · subst hcc
      cases hs.symm.trans hs'
      exact count
    · rw [he.links c' hcc] at hs'
      rw [he.received c' hcc]
      exact hw.count c' s' hs'
  · intro c' s' hs'
    by_cases hcc : c' = c
    · subst hcc
      cases hs.symm.trans hs'
      exact settled
    · rw [he.links c' hcc] at hs'
      exact hw.settled c' s' hs'
  · intro c' s' hs'
    by_cases hcc : c' = c
    · subst hcc
      cases hs.symm.trans hs'
      exact talk
    · rw [he.links c' hcc] at hs'
      rw [he.received c' hcc, he.log c' hcc, he.keys c' hcc]
      have ht := hw.talk c' s' hs'
      rcases he.mode with hf | hf
      · rw [hf]
        exact ht
      · exact ht.mode fun a ha => hf c' hcc ⟨a, ha⟩

theorem inv_connect {c : Nat} (hw : w.Inv E d) (h : worldStep E w (.connect c) = some w') : w'.Inv E d := by
  obtain ⟨hc, hk, rfl⟩ := connect_cases hw.wf h
  obtain ⟨hrec, hown⟩ := hw.away c hc
  have hkeys : ∀ c', c' ≠ c → (w.listen.server.afterAccept c).keys c' = w.listen.server.keys c' :=
    fun c' hcc => Function.update_of_ne hcc ..
  have hkey : (w.listen.server.afterAccept c).keys c = some ⟨.opRead, none⟩ := Function.update_self ..
  have hwait : ∀ c', (∃ a, (w.listen.server.afterAccept c).keys c' = some ⟨.opWrite, a⟩) ↔ w.Waiting c' := by
    intro c'
    by_cases hcc : c' = c
    · subst hcc
      simp [World.Waiting, hkey, hk]
    · rw [hkeys c' hcc]
      rfl
  refine hw.step (c := c) (s := .new) ⟨fun c' hcc => setLink_other _ hcc _, fun _ _ => rfl, hkeys,
    fun _ _ => rfl, .inl rfl⟩ ⟨hw.wf.buffer, hw.wf.update c fun k hk => by cases hk; exact .inl rfl⟩ hw.single ?_
    hw.legal (setLink_self ..) (hrec ▸ Nat.zero_le _) (fun call hcall => absurd hcall List.not_mem_nil)
    (.resting trivial hkey List.drop_nil rfl hown)
  intro hmode
  obtain ⟨c₀, hc₀, honly⟩ := hw.busy hmode
  exact ⟨c₀, (hwait c₀).2 hc₀, fun c' hc' => honly c' ((hwait c').1 hc')⟩

theorem inv_client {c : Nat} {e : Scpi.Event} (hw : w.Inv E d) (ho : Orderly E w (.client c e))
    (h : worldStep E w (.client c e) = some w') : w'.Inv E d := by
  obtain ⟨he, s, s', hs, hstep, rfl⟩ := client_cases h
  obtain ⟨ht, hcount, hsettled⟩ := talk_client he (fun he => ho he s hs) (hw.talk c s hs) (hw.count c s hs)
    (hw.settled c s hs) hstep
  exact hw.step ⟨fun c' hcc => setLink_other _ hcc _, fun _ _ => rfl, fun _ _ => rfl, fun _ _ => rfl, .inl rfl⟩
    hw.wf hw.single hw.busy hw.legal (setLink_self ..) hcount hsettled ht

/-- A client with unread bytes has asked for them. -/
theorem Talk.unread {cs : Java.Charset} {mode : Mode} {k : Option Key} {u : Bytes} {s : Link}
    {L : List (Request × Value)} (h : Talk cs mode k u s L) (hne : u ≠ []) :
    ∃ command, written s.phase = some command ∧ u = transmission command ∧ s.buffer ++ s.inflight = [] ∧
      L = finished cs s.calls := by
  cases h with
  | resting _ _ hu => exact absurd hu hne
  | asked command hp _ hu hb hL => exact ⟨command, hp, hu, hb, hL⟩
  | pending _ _ _ _ _ hu => exact absurd hu hne
  | queried _ _ _ _ _ _ hu => exact absurd hu hne
  | answered _ _ _ _ _ hu => exact absurd hu hne
  | receiving _ _ _ _ _ _ hu => exact absurd hu hne

/-- The world after the server has read all that a client sent. -/
def World.afterRead (E : Env κ δ) (w : World δ) (c : Nat) (s : Link) (command : Str) : World δ :=
  { w with
    listen := ⟨w.listen.server.afterChunk E c (transmission command), .running⟩
    received := Function.update w.received c s.sent.length }

/-- **What an orderly read reads**: the request of a client, whole. -/
theorem read_request {c n : Nat} (hw : w.Inv E d) (ho : Orderly E w (.read c n))
    (h : worldStep E w (.read c n) = some w') : ∃ s command, w.links c = some s ∧ written s.phase = some command ∧
      w.unread c = transmission command ∧ s.buffer ++ s.inflight = [] ∧ own c (w.log E) = finished E.charset s.calls ∧
      w.listen.server.keys c = some ⟨.opRead, none⟩ ∧ w' = w.afterRead E c s command := by
  obtain ⟨hn, hk, rfl⟩ := read_cases hw.wf h
  obtain ⟨rfl, -⟩ := ho
  have hne : w.unread c ≠ [] := List.ne_nil_of_length_pos hn.1
  cases hs : w.links c with
  | none => exact absurd (by simp [World.unread, hs]) hne
  | some s =>
    have hu : w.unread c = s.sent.drop (w.received c) := by simp [World.unread, hs]
    obtain ⟨command, hp, hsent, hb, hL⟩ := (hw.talk c s hs).unread (hu ▸ hne)
    have hcount : w.received c + (w.unread c).length = s.sent.length := by
      have := hw.count c s hs
      rw [hu, List.length_drop]
      omega
    refine ⟨s, command, rfl, hp, hu.trans hsent, hb, hL, hk, ?_⟩
    rw [World.afterRead, List.take_length, hcount, hu, hsent]

/-- The log entry of a request belongs to its client alone. -/
theorem own_concat_other {c c' : Nat} (h : c' ≠ c) (L : List (Nat × Request × Value)) (r : Request) (v : Value) :
    own c' (L ++ [(c, r, v)]) = own c' L := by
  rw [own_append, own_other (Ne.symm h), List.append_nil]

theorem own_concat_self (c : Nat) (L : List (Nat × Request × Value)) (r : Request) (v : Value) :
    own c (L ++ [(c, r, v)]) = own c L ++ [(r, v)] := by
  rw [own_append, own_self]

section Read

variable {c : Nat} {s : Link} {command : Str}

theorem received_other {c' : Nat} (h : c' ≠ c) : (w.afterRead E c s command).received c' = w.received c' :=
  Function.update_of_ne h ..

theorem received_self : (w.afterRead E c s command).received c = s.sent.length := Function.update_self ..

/-- Nothing of what was sent is left to read. -/
theorem drop_received : s.sent.drop ((w.afterRead E c s command).received c) = [] := by
  rw [received_self, List.drop_length]

end Read

theorem inv_read_batch {c : Nat} {s : Link} {command : Str} {lines : List JString} (hw : w.Inv E d)
    (hwf : (w.afterRead E c s command).listen.server.Wf) (hs : w.links c = some s) (hp : written s.phase = some command)
    (hb : s.buffer ++ s.inflight = []) (hL : own c (w.log E) = finished E.charset s.calls)
    (hreq : requestOf E.charset (transmission command) = .batch lines) (htext : ∀ line ∈ lines, kindOf line = .text)
    (hmode : w.listen.server.flags.mode = .text)
    (hr : Readable (answerTo E (.batch lines) w.listen.server.dev).1) : (w.afterRead E c s command).Inv E d := by
  obtain ⟨r, hr⟩ := text_of_readable hr
  obtain ⟨hflags, hdev, hkeys, hlog⟩ := afterChunk_batch (c := c) hreq htext hr
  have hask : ask E (.batch lines) w.listen.server.dev =
      ((Response.text r).value, (replies E.factory lines w.listen.server.dev).2) := by
    simp only [ask, answerTo, valueOf, Response.value, hr]
  have hmode' : (w.listen.server.afterChunk E c (transmission command)).flags.mode = .text := by rw [hflags, hmode]
  refine hw.step (c := c) (s := s) ⟨fun _ _ => rfl, fun c' hcc => received_other hcc, fun c' hcc => ?_,
    fun c' hcc => ?_, .inl ?_⟩ hwf (single_of_text hmode') (fun h => absurd hmode' h) ?_ hs ?_ (hw.settled c s hs) ?_
  · exact (congrFun hkeys c').trans (Function.update_of_ne hcc ..)
  · exact (congrArg (own c') hlog).trans (own_concat_other hcc _ _ _)
  · exact congrArg Flags.mode hflags
  · have hlegal := hw.legal.concat c (.batch lines)
    rw [hask] at hlegal
    show Legal _ d (logOf E.charset (w.listen.server.afterChunk E c _).history) _
    rw [hlog]
    exact hdev.symm ▸ hlegal
  · exact Nat.le_of_eq received_self
  · refine .pending command r hp ((congrFun hkeys c).trans (Function.update_self ..)) hmode' drop_received hb ?_
    rw [hreq, ← hL]
    exact (congrArg (own c) hlog).trans (own_concat_self c _ _ _)

theorem inv_read_query {c : Nat} {s : Link} {command : Str} {line : JString} (hw : w.Inv E d)
    (hwf : (w.afterRead E c s command).listen.server.Wf) (hs : w.links c = some s) (hp : written s.phase = some command)
    (hb : s.buffer ++ s.inflight = []) (hL : own c (w.log E) = finished E.charset s.calls)
    (hreq : requestOf E.charset (transmission command) = .query line) (hno : ∀ c', ¬ w.Waiting c') :
    (w.afterRead E c s command).Inv E d := by
  obtain ⟨hflags, hdev, hkeys, hlog⟩ := afterChunk_query (c := c) (s := w.listen.server) hreq
  have hmode := hw.idle hno
  have hkey : (w.listen.server.afterChunk E c (transmission command)).keys c =
      some ⟨.opWrite, some (line ++ lit ";")⟩ := (congrFun hkeys c).trans (Function.update_self ..)
  refine hw.step (c := c) (s := s) ⟨fun _ _ => rfl, fun c' hcc => received_other hcc, fun c' hcc => ?_,
    fun c' _ => congrArg (own c') hlog, .inr fun c' _ => hno c'⟩ hwf ?_ ?_ ?_ hs ?_ (hw.settled c s hs) ?_
  · exact (congrFun hkeys c').trans (Function.update_of_ne hcc ..)
  · exact hflags ▸ mark_single hmode _
  · -- the only client that waits is the one that asked
    refine fun _ => ⟨c, ⟨_, hkey⟩, ?_⟩
    rintro c' ⟨a, ha⟩
    by_contra hcc
    exact hno c' ⟨a, (Function.update_of_ne hcc ..).symm.trans ((congrFun hkeys c').symm.trans ha)⟩
  · show Legal _ d (logOf E.charset (w.listen.server.afterChunk E c _).history) _
    rw [hlog]
    exact hdev.symm ▸ hw.legal
  · exact Nat.le_of_eq received_self
  · refine .queried command line hp hreq hkey ?_ drop_received hb (hL ▸ congrArg (own c) hlog)
    exact (congrArg Flags.mode hflags).trans (mark_mode hmode _)

theorem inv_read {c n : Nat} (hw : w.Inv E d) (ho : Orderly E w (.read c n))
    (h : worldStep E w (.read c n) = some w') : w'.Inv E d := by
  obtain ⟨s, command, hs, hp, hu, hb, hL, -, rfl⟩ := read_request hw ho h
  have hwf := wf_step hw.wf h
  obtain ⟨-, hreq⟩ := ho
  rw [hu] at hreq
  cases hrq : requestOf E.charset (transmission command) with
  | batch lines =>
    rw [hrq] at hreq
    obtain ⟨htext, hmode, hr⟩ := hreq
    exact inv_read_batch hw hwf hs hp hb hL hrq htext hmode hr
  | query line =>
    rw [hrq] at hreq
    exact inv_read_query hw hwf hs hp hb hL hrq hreq

/-- The world after the server has answered a client. -/
def World.afterWrite (w : World δ) (c : Nat) (s : Link) (a : JString) (d' : δ) (sent : Bytes) : World δ :=
  { w with listen := ⟨w.listen.server.afterAnswer c (some a) d' sent, .running⟩ }.setLink c
    { s with inflight := s.inflight ++ sent }

/-- The answer to the client that waits keeps the invariant: a response is sent that the client can read, and the log
has it. -/
theorem inv_answered {c : Nat} {s : Link} {a : JString} {d' : δ} {sent : Bytes} {command : Str} {r : Response}
    (hw : w.Inv E d) (hwf : (w.afterWrite c s a d' sent).listen.server.Wf) (hs : w.links c = some s)
    (hp : written s.phase = some command) (hu : s.sent.drop (w.received c) = []) (hb : s.buffer ++ s.inflight = [])
    (hr : r.Plain) (hsent : sent = r.wire) (hmode : w.listen.server.flags.mode = .text ∨
      ∀ c', c' ≠ c → ¬ w.Waiting c') (hlegal : Legal (ask E) d ((w.afterWrite c s a d' sent).log E) d')
    (hother : ∀ c', c' ≠ c → own c' ((w.afterWrite c s a d' sent).log E) = own c' (w.log E))
    (hL : own c ((w.afterWrite c s a d' sent).log E) =
      finished E.charset s.calls ++ [(requestOf E.charset (transmission command), r.value)]) :
    (w.afterWrite c s a d' sent).Inv E d := by
  have hmode' : (w.afterWrite c s a d' sent).listen.server.flags.mode = .text := hw.single.reset
  refine hw.step (c := c) ⟨fun c' hcc => setLink_other _ hcc _, fun _ _ => rfl,
    fun c' hcc => Function.update_of_ne hcc .., hother, ?_⟩ hwf (single_of_text hmode') (fun h => absurd hmode' h)
    hlegal (setLink_self ..) (hw.count c s hs) (hw.settled c s hs) ?_
  · exact hmode.imp (fun h => hmode'.trans h.symm) id
  · refine .answered command r hr hp (Function.update_self ..) hu ?_ hL
    show s.buffer ++ (s.inflight ++ sent) = r.wire
    rw [← List.append_assoc, hb, hsent, List.nil_append]

theorem inv_write {c : Nat} {ks : List Nat} (hw : w.Inv E d) (ho : Orderly E w (.write c ks))
    (h : worldStep E w (.write c ks) = some w') : w'.Inv E d := by
  have hwf := wf_step hw.wf h
  obtain ⟨s, a, d', sent, hs, hk, hwrite, rfl⟩ := write_cases hw.wf h
  obtain ⟨hwhole, hreadable⟩ := ho
  have hatt : w.attachment c = some a := by rw [World.attachment, hk]; rfl
  rw [hatt] at hwhole hreadable
  have ht := hw.talk c s hs
  rw [hk] at ht
  obtain ⟨hu, hb, command, hp, hcase⟩ := ht.waiting
  have hlog := @afterAnswer_log δ c E.charset w.listen.server a d' sent
  rcases hcase with ⟨r, rfl, hmode, hL⟩ | ⟨line, rfl, hmode, hreq, hL⟩
  · -- a text is no entry of the log: it took effect when it was read
    have ha := text_answered E hmode r.reply w.listen.server.dev
    obtain ⟨rfl, hsent⟩ := answer_sent hk ha hwrite (hwhole _ ha.parts)
    rw [if_pos hmode, List.append_nil] at hlog
    refine inv_answered (r := .text r) hw hwf hs hp hu hb trivial ?_ (.inl hmode) ?_ ?_ ?_
    · exact hsent.trans (wire_answerOf E.charset (.text r))
    · show Legal _ d (logOf E.charset (w.listen.server.afterAnswer c (some r.reply) _ sent).history) _
      rw [hlog]
      exact hw.legal
    · exact fun c' _ => congrArg (own c') hlog
    · exact (congrArg (own c) hlog).trans hL
  · have hk' := (requestOf_query hreq).2
    have hne : w.listen.server.flags.mode ≠ .text := fun h => hk' (mode_inj (hmode.symm.trans h))
    have hread := hreadable hne line rfl
    obtain ⟨ps, ha⟩ := query_answered E hmode hk' (semicolon_notMem_query hreq) fun _ => length_of_readable hread
    obtain ⟨rfl, hsent⟩ := answer_sent hk ha hwrite (hwhole _ ha.parts)
    obtain ⟨r, hr, hrq⟩ := hread
    have hwire : sent = r.wire := by rw [hsent, ← hrq, wire_answerOf]
    have hdrop : (line ++ lit ";").dropLast = line := by rw [Java.lit_semicolon, List.dropLast_concat]
    rw [if_neg hne, hdrop, hwire, sentValue_wire, ← hwire] at hlog
    have hask : ask E (.query line) w.listen.server.dev = (r.value, (query E line w.listen.server.dev).2) := by
      rw [ask, answerTo, ← hrq, valueOf_answerOf]
    obtain ⟨c₀, -, honly⟩ := hw.busy hne
    refine inv_answered hw hwf hs hp hu hb hr hwire (.inr fun c' hcc hwait => hcc ?_) ?_ ?_ ?_
    · exact (honly c' hwait).trans (honly c ⟨_, hk⟩).symm
    · have hlegal := hw.legal.concat c (.query line)
      rw [hask] at hlegal
      show Legal _ d (logOf E.charset (w.listen.server.afterAnswer c (some (line ++ lit ";")) _ sent).history) _
      rw [hlog]
      exact hlegal
    · exact fun c' hcc => (congrArg (own c') hlog).trans (own_concat_other hcc _ _ _)
    · rw [hreq, ← hL]
      exact (congrArg (own c) hlog).trans (own_concat_self c _ _ _)

/-- **A step of the world** keeps the invariant. -/
theorem inv_step {e : Event} (hw : w.Inv E d) (ho : Orderly E w e) (h : worldStep E w e = some w') : w'.Inv E d := by
  cases e with
  | connect c => exact inv_connect hw h
  | client c e => exact inv_client hw ho h
  | read c n => exact inv_read hw ho h
  | write c ks => exact inv_write hw ho h

/-! ## The log grows -/

/-- What took effect stays so. -/
theorem log_step {e : Event} (hw : w.listen.server.Wf) (h : worldStep E w e = some w') : w.log E <+: w'.log E := by
  unfold World.log
  rcases server_cases hw h with hl | ⟨r, hm, -⟩
  · exact hl ▸ List.prefix_rfl
  · generalize w'.listen.server = s' at hm
    cases hm with
    | accept => exact List.prefix_rfl
    | chunk => exact logOf_append E.charset .. ▸ List.prefix_append ..
    | close => exact List.prefix_rfl
    | answer => exact logOf_append E.charset .. ▸ List.prefix_append ..

theorem log_run {es : List Event} (hw : w.listen.server.Wf) (h : run (worldStep E) w es = some w') :
    w.log E <+: w'.log E := by
  have hinv : w'.listen.server.Wf ∧ w.log E <+: w'.log E :=
    run_inv (I := fun w' => w'.listen.server.Wf ∧ w.log E <+: w'.log E)
      (fun _ _ _ hI hs => ⟨wf_step hI.1 hs, hI.2.trans (log_step hI.1 hs)⟩) h ⟨hw, List.prefix_rfl⟩
  exact hinv.2

/-- A client that never connects has no key. -/
theorem key_unconnected {c : Nat} {es : List Event} (hes : ∀ e ∈ es, e ≠ .connect c)
    (h : run (worldStep E) (.start d) es = some w) : w.listen.server.keys c = none := by
  have hinv : w.listen.server.Wf ∧ w.listen.server.keys c = none := by
    refine run_inv_along (I := fun w => w.listen.server.Wf ∧ w.listen.server.keys c = none)
      (fun v e v' hI he hs => ⟨wf_step hI.1 hs, ?_⟩) (along_of_forall _ hes) h ⟨fresh_wf d, rfl⟩
    obtain ⟨hwf, hc⟩ := hI
    rcases server_cases hwf hs with hl | ⟨r, hm, hr⟩
    · rw [hl]
      exact hc
    -- the client whose key changes has one, or connects
    have hother : ∀ {c' : Nat} {k : Key}, v.listen.server.keys c' = some k → c ≠ c' := by
      rintro c' k hk rfl
      rw [hc] at hk
      cases hk
    generalize v'.listen.server = s' at hm
    cases hm with
    | @accept c' hk =>
      refine (Function.update_of_ne ?_ ..).trans hc
      rintro rfl
      exact he (hr c rfl)
    | chunk hk =>
      show (if _ then Function.update _ _ _ else _ : Nat → Option Key) c = none
      split_ifs
      · exact (Function.update_of_ne (hother hk) ..).trans hc
      · exact hc
    | close hk => exact (Function.update_of_ne (hother hk) ..).trans hc
    | answer hk => exact (Function.update_of_ne (hother hk) ..).trans hc
  exact hinv.2

/-! ## The clients together -/

/-- The command that the current call has written. -/
def asking : Phase → Option Str
  | .draining command _ => some command
  | .reading command _ => some command
  | .receiving command _ _ _ => some command
  | _ => none

theorem asking_of_written {p : Phase} {command : Str} (h : written p = some command) : asking p = some command := by
  cases p with
  | draining _ _ => exact h
  | reading _ _ => exact h
  | _ => cases h

/-- What the log has of a client beside its finished calls. -/
theorem Talk.current {cs : Java.Charset} {mode : Mode} {k : Option Key} {u : Bytes} {s : Link}
    {L : List (Request × Value)} (h : Talk cs mode k u s L) : ∃ current, L = finished cs s.calls ++ current ∧
      (current = [] ∨ ∃ command v, asking s.phase = some command ∧
        current = [(requestOf cs (transmission command), v)]) := by
  cases h with
  | resting _ _ _ _ hL => exact ⟨[], by rw [hL, List.append_nil], .inl rfl⟩
  | asked _ _ _ _ _ hL => exact ⟨[], by rw [hL, List.append_nil], .inl rfl⟩
  | pending command r hp _ _ _ _ hL => exact ⟨_, hL, .inr ⟨command, _, asking_of_written hp, rfl⟩⟩
  | queried _ _ _ _ _ _ _ _ hL => exact ⟨[], by rw [hL, List.append_nil], .inl rfl⟩
  | answered command r _ hp _ _ _ hL => exact ⟨_, hL, .inr ⟨command, _, asking_of_written hp, rfl⟩⟩
  | receiving command _ _ payload hp _ _ _ hL => exact ⟨_, hL, .inr ⟨command, .bytes payload, by rw [hp]; rfl, rfl⟩⟩

/-- **The clients see a serial instrument.** After an orderly run the log is one that the instrument, asked for one
request at a time, gives; what took effect before a state of the run comes before what took effect after it; and the
calls of every client found, in their order, the answers of the log, which has at most the request of the current call
beside them. No call failed, and none gave up after it had written. -/
theorem clients_serial (E : Env κ δ) (d : δ) {es fs : List Event} {v w : World δ}
    (ho : Along (Orderly E) (worldStep E) (.start d) (es ++ fs)) (hv : run (worldStep E) (.start d) es = some v)
    (hw : run (worldStep E) v fs = some w) :
    Legal (ask E) d (w.log E) w.listen.server.dev ∧ v.log E <+: w.log E ∧
      ∀ c s, w.links c = some s → (∀ call ∈ s.calls, Settled call) ∧
        ∃ current, own c (w.log E) = finished E.charset s.calls ++ current ∧
          (current = [] ∨ ∃ command v, asking s.phase = some command ∧
            current = [(requestOf E.charset (transmission command), v)]) := by
  have hwf : v.listen.server.Wf :=
    run_inv (I := fun w => w.listen.server.Wf) (fun _ _ _ hI hs => wf_step hI hs) hv (fresh_wf d)
  have hinv : w.Inv E d :=
    run_inv_along (I := fun w => w.Inv E d) (fun _ _ _ hI hP hs => inv_step hI hP hs) ho
      (run_append.2 ⟨v, hv, hw⟩) (inv_start E d)
  exact ⟨hinv.legal, log_run hwf hw, fun c s hs => ⟨hinv.settled c s hs, (hinv.talk c s hs).current⟩⟩

/-! ## Two clients -/

def fiveBytes : ByteArr := ⟨List.replicate 5 7, by decide⟩

/-- The instrument of the run. -/
def fiveBench : Env Empty Unit := bench true (some fiveBytes) [1, 2, 3]

/-- One client sends a text, the other asks for data; both requests are with the server. -/
def bothAsked : List Event :=
  [.connect 1, .connect 2, .client 1 (.call ['A']), .client 1 .write, .client 2 (.call ("*ADC?").toList),
    .client 2 .write, .read 1 3, .write 1 [100], .read 2 7]

/-- The data is sent before the first client reads its text. -/
def bothAnswered : List Event :=
  [.client 1 .drained, .write 2 [1, 4, 1, 2048], .client 1 (.arrive 26), .client 1 .read, .client 2 (.arrive 11),
    .client 2 .drained, .client 2 .read, .client 2 .read]

/-- What is computed of a run is true of its last state. -/
theorem of_run {α : Type} {es : List Event} {w : World Unit} (f : World Unit → α) {a : α}
    (hf : (run (worldStep fiveBench) (.start ()) es).map f = some a)
    (hw : run (worldStep fiveBench) (.start ()) es = some w) : f w = a := by
  rw [hw] at hf
  exact Option.some.inj hf

/-- No client waits where all that connected can be read. -/
theorem not_waiting_of_ready {l : List Nat} {es : List Event} {w : World Unit}
    (hes : ∀ e ∈ es, ∀ c, e = .connect c → c ∈ l) (hw : run (worldStep fiveBench) (.start ()) es = some w)
    (hk : ∀ c ∈ l, w.listen.server.keys c = some ⟨.opRead, none⟩) (c : Nat) : ¬ w.Waiting c := by
  rintro ⟨a, ha⟩
  by_cases hc : c ∈ l
  · rw [hk c hc] at ha
    cases ha
  · rw [key_unconnected (fun e he hcon => hc (hes e he c hcon)) hw] at ha
    cases ha

theorem unanalysed_reply : (lit "CAN NOT ANALYSE THE ORDER") = replyTo fiveBench.factory [lit "A"] () := by
  decide +kernel

def unanalysed : TextReply where
  reply := lit "CAN NOT ANALYSE THE ORDER"
  ascii := List.all_iff_forall_prop.1 (by decide)
  nonempty := by decide +kernel
  noLineFeed := by decide +kernel
  noHash := by decide +kernel
  noTrailingSpace := fun c hc => by cases hc; decide

theorem readable_unanalysed (d : Unit) : Readable (answerTo fiveBench (.batch [lit "A"]) d).1 :=
  ⟨.text unanalysed, trivial, congrArg Answer.text unanalysed_reply⟩

theorem readable_five (d : Unit) : Readable (query fiveBench (lit "*ADC?") d).1 :=
  ⟨.frame fiveBytes, by constructor <;> decide, rfl⟩

theorem both_orderly : Along (Orderly fiveBench) (worldStep fiveBench) (.start ()) (bothAsked ++ bothAnswered) := by
  refine along_of_take fun i hi w hw => ?_
  have hi' : i < 17 := hi
  interval_cases i
  case «0» | «1» => exact True.intro
  case «6» =>
    have hu := of_run (World.unread · 1) (a := (lit "A\r\n").map UInt16.toUInt8) (by decide +kernel) hw
    have hf := of_run (·.listen.server.flags.mode) (a := .text) (by decide +kernel) hw
    have hreq : requestOf fiveBench.charset (w.unread 1) = .batch [lit "A"] := by
      rw [hu]
      decide +kernel
    refine ⟨congrArg List.length hu.symm, ?_⟩
    rw [hreq]
    exact ⟨by decide +kernel, hf, readable_unanalysed _⟩
  case «7» =>
    have ha := of_run (World.attachment · 1) (a := some unanalysed.reply) (by decide +kernel) hw
    have hf := of_run (·.listen.server.flags) (a := Flags.clean) (by decide +kernel) hw
    refine ⟨fun ps hps => ?_, fun h => ?_⟩
    · rw [ha, hf] at hps
      cases hps
      exact ⟨by decide +kernel, trivial⟩
    · rw [hf] at h
      exact absurd rfl h
  case «8» =>
    have hu := of_run (World.unread · 2) (a := (lit "*ADC?\r\n").map UInt16.toUInt8) (by decide +kernel) hw
    have hreq : requestOf fiveBench.charset (w.unread 2) = .query (lit "*ADC?") := by
      rw [hu]
      decide +kernel
    refine ⟨congrArg List.length hu.symm, ?_⟩
    rw [hreq]
    have hk := of_run (fun w => (w.listen.server.keys 1, w.listen.server.keys 2))
      (a := (some ⟨.opRead, none⟩, some ⟨.opRead, none⟩)) (by decide +kernel) hw
    rw [Prod.mk.injEq] at hk
    exact not_waiting_of_ready (l := [1, 2]) (by simp [bothAsked, bothAnswered]) hw (by simpa using hk)
  case «10» =>
    have ha := of_run (World.attachment · 2) (a := some (lit "*ADC?;")) (by decide +kernel) hw
    have hf := of_run (·.listen.server.flags) (a := ⟨true, false, false⟩) (by decide +kernel) hw
    refine ⟨fun ps hps => ?_, fun _ line hline => ?_⟩
    · rw [ha, hf] at hps
      have hparts : (eachParts fiveBench (Java.split Java.semicolon (Java.trim (lit "*ADC?;"))) ()).1 =
          largeParts (some fiveBytes) := by decide +kernel
      obtain rfl : largeParts (some fiveBytes) = ps := hparts.symm.trans (Option.some.inj hps)
      exact ⟨by decide, by decide, by decide, trivial⟩
    · rw [ha] at hline
      obtain rfl : lit "*ADC?" = line := List.append_cancel_right (Option.some.inj hline)
      exact readable_five _
  all_goals exact nofun

/-- The text took effect first, and each client has its own answer. -/
theorem clients_serial_both : ∃ v w, run (worldStep fiveBench) (.start ()) bothAsked = some v ∧
    run (worldStep fiveBench) v bothAnswered = some w ∧ v.log fiveBench <+: w.log fiveBench ∧
    (w.log fiveBench).map Prod.fst = [1, 2] ∧
    ∀ c s, w.links c = some s → ∃ current, own c (w.log fiveBench) = finished fiveBench.charset s.calls ++ current := by
  obtain ⟨w, h⟩ := Option.isSome_iff_exists.1
    (by decide +kernel : (run (worldStep fiveBench) (.start ()) (bothAsked ++ bothAnswered)).isSome = true)
  obtain ⟨v, hv, hw⟩ := run_append.1 h
  obtain ⟨-, hgrow, hclients⟩ := clients_serial fiveBench () both_orderly hv hw
  have hlog := of_run (fun w => (w.log fiveBench).map Prod.fst) (a := [1, 2]) (by decide +kernel) h
  refine ⟨v, w, hv, hw, hgrow, hlog, fun c s hs => ?_⟩
  obtain ⟨-, current, hown, -⟩ := hclients c s hs
  exact ⟨current, hown⟩

end OwonVds.Remote
