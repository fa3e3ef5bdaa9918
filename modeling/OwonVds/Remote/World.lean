import OwonVds.Lib.Serial
import OwonVds.Scpi.Link
import OwonVds.Scpi.RoundTrip
import OwonVds.Socket.Answer

/-!
# The instrument and its remote clients

Any number of links, each with a connection of its own, and the one server thread that serves them. A client's step is
a step of its `Link`; what it writes waits until a read step of the server takes the next bytes of it, and what the
channel takes of a write step of the server is on its way to the client. The steps come in any order.

`Request` is what the server makes of a chunk, and `ask` is what the instrument is to the user: it is asked for one
request at a time, a batch is answered with the replies of its lines joined by `;`, a query with its `Answer`. `logOf`
reads off the server's history in which order the requests took effect: a batch when it was read, a query when it was
answered.
-/

namespace OwonVds.Remote

open Java (Bytes JString lit)
open Socket Scpi

variable {κ δ : Type}

/-! ## Requests -/

/-- A batch of lines, or a query alone: of data, or of the deep memory. -/
inductive Request
  | batch (lines : List JString)
  | query (line : JString)
  deriving DecidableEq, Repr

/-- The request in a chunk. -/
def requestOf (cs : Java.Charset) (chunk : Bytes) : Request :=
  match chunkLines cs chunk with
  | [line] => if kindOf line = .text then .batch [line] else .query line
  | lines => .batch lines

/-- The instrument's answer to a request. -/
def answerTo (E : Env κ δ) : Request → δ → Answer × δ
  | .batch lines, d => (.text (replyTo E.factory lines d), (replies E.factory lines d).2)
  | .query line, d => query E line d

/-- What a client is to have of an answer. -/
def valueOf : Answer → Value
  | .text reply => .text (chars reply)
  | .data payload => .bytes payload
  | .nothing => .bytes []

/-- The instrument, asked for one request at a time. -/
def ask (E : Env κ δ) (r : Request) (d : δ) : Value × δ := (valueOf (answerTo E r d).1, (answerTo E r d).2)

/-- What was sent of an answer: the payload after `#`, the length and a line feed, or the line without its end. -/
def sentValue : Bytes → Value
  | 0x23 :: sent => .bytes (sent.drop 5)
  | sent => .text (sent.dropLast.map fun a => Char.ofNat a.toNat)

/-- The request that an entry of the server's history completes. A query is attached with a `;` of its own. -/
def logEntry (cs : Java.Charset) : Obs → Option (Nat × Request × Value)
  | .chunk c buf reply =>
    match requestOf cs buf with
    | .batch lines => some (c, .batch lines, .text (chars reply))
    | .query _ => none
  | .answer c cmd mode _ sent => if mode = .text then none else some (c, .query cmd.dropLast, sentValue sent)

def logOf (cs : Java.Charset) (h : List Obs) : List (Nat × Request × Value) := h.filterMap (logEntry cs)

@[simp] theorem logOf_append (cs : Java.Charset) (h h' : List Obs) : logOf cs (h ++ h') = logOf cs h ++ logOf cs h' :=
  List.filterMap_append

/-! ## The world -/

structure World (δ : Type) where
  listen : Listen δ
  /-- The clients that have connected. -/
  links : Nat → Option Link
  /-- How many bytes of what a client sent the server has read. -/
  received : Nat → Nat

def World.start (d : δ) : World δ := ⟨.fresh d, fun _ => none, fun _ => 0⟩

/-- What was sent by a client and not read yet. -/
def World.unread (w : World δ) (c : Nat) : Bytes := ((w.links c).map fun s => s.sent.drop (w.received c)).getD []

inductive Event
  | connect (c : Nat)
  /-- A step of a client, other than an answer of its server. -/
  | client (c : Nat) (e : Scpi.Event)
  /-- The server reads the next bytes from a client. -/
  | read (c n : Nat)
  /-- The server answers a client; each write takes that many bytes. -/
  | write (c : Nat) (ks : List Nat)

/-- The link takes the step itself. -/
def byClient : Scpi.Event → Bool
  | .answer _ => false
  | _ => true

/-- The server handles a ready key and goes on. -/
def serve (E : Env κ δ) (l : Listen δ) (r : Ready) : Option (Listen δ) :=
  (listenStep E l (.ready r)).filter fun l => l.status = .running

/-- What a step of the server has sent. -/
def sentBy : Obs → Bytes
  | .chunk .. => []
  | .answer _ _ _ _ sent => sent

/-- What was sent since the history had that length. -/
def delivered (n : Nat) (h : List Obs) : Bytes := (h.drop n).flatMap sentBy

def World.setLink (w : World δ) (c : Nat) (s : Link) : World δ := { w with links := Function.update w.links c (some s) }

def worldStep (E : Env κ δ) (w : World δ) : Event → Option (World δ)
  | .connect c =>
    if w.links c = none then
      (serve E w.listen (.acceptable (.client c false))).map fun l => { w with listen := l }.setLink c .new
    else none
  | .client c e =>
    if byClient e then (w.links c).bind fun s => (linkStep s e).map (w.setLink c) else none
  | .read c n =>
    if 0 < n ∧ n ≤ (w.unread c).length then
      (serve E w.listen (.readable c (.bytes ((w.unread c).take n)) false)).map fun l =>
        { w with listen := l, received := Function.update w.received c (w.received c + n) }
    else none
  | .write c ks =>
    (w.links c).bind fun s => (serve E w.listen (.writable c (ks.map some))).map fun l =>
      { w with listen := l }.setLink c
        { s with inflight := s.inflight ++ delivered w.listen.server.history.length l.server.history }

/-- The order in which the requests took effect. -/
def World.log (E : Env κ δ) (w : World δ) : List (Nat × Request × Value) := logOf E.charset w.listen.server.history

/-! ## What a step does -/

variable {E : Env κ δ} {w w' : World δ}

theorem serve_moves {l l' : Listen δ} {r : Ready} (hw : l.server.Wf) (h : serve E l r = some l') :
    Moves E l.server r l'.server ∧ l'.status = .running := by
  unfold serve at h
  obtain ⟨hstep, hrun⟩ := Option.filter_eq_some_iff.1 h
  obtain ⟨-, ⟨hr, -⟩ | ⟨hr, -⟩ | ⟨q, hr, hm, hrun'⟩ | ⟨q, x, -, -, hd⟩⟩ := listenStep_cases hw.buffer hstep
  · cases hr
  · cases hr
  · cases hr
    exact ⟨hm, hrun'⟩
  · rw [hd] at hrun
    cases of_decide_eq_true hrun

theorem connect_cases {c : Nat} (hw : w.listen.server.Wf) (h : worldStep E w (.connect c) = some w') :
    w.links c = none ∧ w.listen.server.keys c = none ∧
      w' = { w with listen := ⟨w.listen.server.afterAccept c, .running⟩ }.setLink c .new := by
  simp only [worldStep] at h
  split_ifs at h with hc
  obtain ⟨⟨sv, status⟩, hl, rfl⟩ := Option.map_eq_some_iff.1 h
  obtain ⟨hm, rfl⟩ := serve_moves hw hl
  cases hm with
  | accept hk => exact ⟨hc, hk, rfl⟩

theorem client_cases {c : Nat} {e : Scpi.Event} (h : worldStep E w (.client c e) = some w') :
    byClient e = true ∧ ∃ s s', w.links c = some s ∧ linkStep s e = some s' ∧ w' = w.setLink c s' := by
  simp only [worldStep] at h
  split_ifs at h with he
  obtain ⟨s, hs, h⟩ := Option.bind_eq_some_iff.1 h
  obtain ⟨s', hstep, rfl⟩ := Option.map_eq_some_iff.1 h
  exact ⟨he, s, s', hs, hstep, rfl⟩

theorem read_cases {c n : Nat} (hw : w.listen.server.Wf) (h : worldStep E w (.read c n) = some w') :
    (0 < n ∧ n ≤ (w.unread c).length) ∧ w.listen.server.keys c = some ⟨.opRead, none⟩ ∧
      w' = { w with
        listen := ⟨w.listen.server.afterChunk E c ((w.unread c).take n), .running⟩
        received := Function.update w.received c (w.received c + n) } := by
  simp only [worldStep] at h
  split_ifs at h with hn
  obtain ⟨⟨sv, status⟩, hl, rfl⟩ := Option.map_eq_some_iff.1 h
  obtain ⟨hm, rfl⟩ := serve_moves hw hl
  cases hm with
  | close hk hr =>
    have hlen := congrArg List.length (hr _ rfl)
    rw [List.length_take, List.length_nil] at hlen
    omega
  | chunk hk hne hl =>
    obtain rfl := hw.idle hk
    exact ⟨hn, hk, rfl⟩

theorem write_cases {c : Nat} {ks : List Nat} (hw : w.listen.server.Wf) (h : worldStep E w (.write c ks) = some w') :
    ∃ s a d' sent, w.links c = some s ∧ w.listen.server.keys c = some ⟨.opWrite, some a⟩ ∧
      writeStep E c (ks.map some) w.listen.server = .ok () (w.listen.server.afterAnswer c (some a) d' sent) ∧
      w' = { w with listen := ⟨w.listen.server.afterAnswer c (some a) d' sent, .running⟩ }.setLink c
        { s with inflight := s.inflight ++ sent } := by
  simp only [worldStep] at h
  obtain ⟨s, hs, h⟩ := Option.bind_eq_some_iff.1 h
  obtain ⟨⟨sv, status⟩, hl, rfl⟩ := Option.map_eq_some_iff.1 h
  obtain ⟨hm, rfl⟩ := serve_moves hw hl
  cases hm with
  | answer hk d' sent hstep =>
    obtain ⟨a, -, rfl⟩ := hw.pending hk
    have hdelivered : delivered w.listen.server.history.length
        (w.listen.server.afterAnswer c (some a) d' sent).history = sent := by
      simp [delivered, sentBy, Server.afterAnswer]
    exact ⟨s, a, d', sent, hs, hk, hstep,
      congrArg (fun b => World.setLink _ c { s with inflight := s.inflight ++ b }) hdelivered⟩

theorem setLink_self (w : World δ) (c : Nat) (s : Link) : (w.setLink c s).links c = some s := Function.update_self ..

theorem setLink_other (w : World δ) {c c' : Nat} (h : c' ≠ c) (s : Link) : (w.setLink c s).links c' = w.links c' :=
  Function.update_of_ne h ..

/-- What a step does to the server. -/
theorem server_cases {e : Event} (hw : w.listen.server.Wf) (h : worldStep E w e = some w') :
    w'.listen = w.listen ∨ ∃ r, Moves E w.listen.server r w'.listen.server ∧
      ∀ c, r = .acceptable (.client c false) → e = .connect c := by
  cases e with
  | connect c =>
    simp only [worldStep] at h
    split_ifs at h
    obtain ⟨l, hl, rfl⟩ := Option.map_eq_some_iff.1 h
    refine .inr ⟨_, (serve_moves hw hl).1, fun c' hc => ?_⟩
    cases hc
    rfl
  | client c e =>
    simp only [worldStep] at h
    split_ifs at h
    obtain ⟨s, -, h⟩ := Option.bind_eq_some_iff.1 h
    obtain ⟨s', -, rfl⟩ := Option.map_eq_some_iff.1 h
    exact .inl rfl
  | read c n =>
    simp only [worldStep] at h
    split_ifs at h
    obtain ⟨l, hl, rfl⟩ := Option.map_eq_some_iff.1 h
    exact .inr ⟨_, (serve_moves hw hl).1, nofun⟩
  | write c ks =>
    simp only [worldStep] at h
    obtain ⟨s, -, h⟩ := Option.bind_eq_some_iff.1 h
    obtain ⟨l, hl, rfl⟩ := Option.map_eq_some_iff.1 h
    exact .inr ⟨_, (serve_moves hw hl).1, nofun⟩

theorem wf_step {e : Event} (hw : w.listen.server.Wf) (h : worldStep E w e = some w') : w'.listen.server.Wf := by
  rcases server_cases hw h with hl | ⟨r, hm, -⟩
  · rw [hl]
    exact hw
  · exact hm.wf hw

end OwonVds.Remote
