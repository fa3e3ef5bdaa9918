import Mathlib.Algebra.Order.BigOperators.Group.List
import Mathlib.Algebra.Order.Group.Nat
import Mathlib.Algebra.GroupWithZero.Nat
import OwonVds.Lib.Trans
import OwonVds.Scpi.Connection

/-!
# Calls and replies

`SCPILink` makes one call at a time: it writes a command and reads a reply, and gives up at its time limit wherever it
is (`Event.timeout`). The server answers each line it is sent, in order, and the bytes of its replies arrive in pieces
of any size. A call that gives up leaves its reply, arrived or not, in the stream.

The stream is the only link between a call and its reply: a read takes the first line that no read has taken. So the
`k`-th read takes the `k`-th reply, and with `linesRead` reads before it a call gets its own reply iff it is the
`linesRead`-th line that was sent. `Link.Inv` keeps the count: the lines sent are those of the calls, the lines read are
one for each call that came to the end of its read. `paired_iff` follows from it.

A line is read whatever its length, and the connection does not end.
-/

namespace OwonVds.Scpi

open Java (Bytes)
open OwonVds.Trans

/-! ## The calls of a link -/

/-- What is written for a command. -/
def transmission (command : Str) : Bytes := encode (command ++ ['\r', '\n'])

/-- The lines a server sees of a command. -/
def commandLines (command : Str) : Nat := (transmission command).count lf

/-- Where the current call is. Once it has written, it has the index of its first line among all lines sent. -/
inductive Phase
  | idle
  /-- The transaction has not run yet. -/
  | started (command : Str)
  /-- At `await self.writer.drain()`. -/
  | draining (command : Str) (first : Nat)
  /-- At `await self.reader.readline()`. -/
  | reading (command : Str) (first : Nat)
  /-- At `await self.reader.readexactly(size)`, after the line of that index. -/
  | receiving (command : Str) (first line size : Nat)
  deriving DecidableEq

/-- How a call ends: with a value or an exception of `read`, after the line of that index, or at its time limit. -/
inductive Outcome
  | returned (line : Nat) (v : Value)
  | raised (line : Nat) (e : PyError)
  | timedOut
  deriving DecidableEq

structure Call where
  command : Str
  /-- The index of its first line among all lines sent, if it has written. -/
  first : Option Nat
  outcome : Outcome
  deriving DecidableEq

structure Link where
  phase : Phase
  /-- What the client has written. -/
  sent : Bytes
  /-- What the server has answered, line by line. -/
  replies : List Bytes
  /-- What the server has sent and the reader has not yet. -/
  inflight : Bytes
  buffer : Bytes
  linesRead : Nat
  /-- The calls that have ended. -/
  calls : List Call

def Link.new : Link := ⟨.idle, [], [], [], [], 0, []⟩

def Link.linesSent (s : Link) : Nat := s.sent.count lf

/-- A reply in text: not empty, not beginning with `#`, in one line. -/
def Reply (r : Bytes) : Prop := r ≠ [] ∧ r.head? ≠ some 35 ∧ lf ∉ r

instance (r : Bytes) : Decidable (Reply r) := by unfold Reply; infer_instance

inductive Event
  | call (command : Str)
  | write
  | drained
  | read
  | timeout
  /-- The server answers the next line. -/
  | answer (r : Bytes)
  /-- The next bytes get to the reader. -/
  | arrive (n : Nat)
  deriving DecidableEq

/-- The current call ends. -/
def Link.finish (s : Link) (command : Str) (first : Option Nat) (o : Outcome) : Link :=
  { s with phase := .idle, calls := s.calls ++ [⟨command, first, o⟩] }

/-- The transaction is cancelled where it is. -/
def Link.cancel (s : Link) : Option Link :=
  match s.phase with
  | .idle => none
  | .started command => some (s.finish command none .timedOut)
  | .draining command first => some (s.finish command (some first) .timedOut)
  | .reading command first => some (s.finish command (some first) .timedOut)
  | .receiving command first _ _ => some (s.finish command (some first) .timedOut)

/-- The reader returns a line, if it has one. -/
def Link.readLine (s : Link) (command : Str) (first : Nat) : Option Link :=
  if lf ∈ s.buffer then
    let t := { s with buffer := (readline s.buffer).2, linesRead := s.linesRead + 1 }
    match header (readline s.buffer).1 with
    | .error e => some (t.finish command (some first) (.raised s.linesRead e))
    | .ok (.text v) => some (t.finish command (some first) (.returned s.linesRead (.text v)))
    | .ok (.size n) => some { t with phase := .receiving command first s.linesRead n }
  else none

def linkStep (s : Link) : Event → Option Link
  | .call command => if s.phase = .idle then some { s with phase := .started command } else none
  | .write =>
    match s.phase with
    | .started command =>
      some { s with phase := .draining command s.linesSent, sent := s.sent ++ transmission command }
    | _ => none
  | .drained =>
    match s.phase with
    | .draining command first => some { s with phase := .reading command first }
    | _ => none
  | .read =>
    match s.phase with
    | .reading command first => s.readLine command first
    | .receiving command first line n =>
      (readexactly n s.buffer).map fun (b, rest) =>
        Link.finish { s with buffer := rest } command (some first) (.returned line (.bytes b))
    | _ => none
  | .timeout => s.cancel
  | .answer r =>
    if s.replies.length < s.linesSent ∧ Reply r then
      some { s with replies := s.replies ++ [r], inflight := s.inflight ++ (r ++ [lf]) }
    else none
  | .arrive n =>
    if n ≤ s.inflight.length then
      some { s with buffer := s.buffer ++ s.inflight.take n, inflight := s.inflight.drop n }
    else none

/-! ## Counting lines -/

/-- The lines a call has written. -/
def Call.lines (c : Call) : Nat := if c.first.isSome then commandLines c.command else 0

/-- The lines a call has read. -/
def Call.reads (c : Call) : Nat := if c.outcome = .timedOut then 0 else 1

def linesOf (cs : List Call) : Nat := (cs.map Call.lines).sum

def readsOf (cs : List Call) : Nat := (cs.map Call.reads).sum

theorem linesOf_concat (cs : List Call) (c : Call) : linesOf (cs ++ [c]) = linesOf cs + c.lines := by
  simp [linesOf]

theorem readsOf_concat (cs : List Call) (c : Call) : readsOf (cs ++ [c]) = readsOf cs + c.reads := by
  simp [readsOf]

theorem commandLines_eq (command : Str) : commandLines command = command.count '\n' + 1 := by
  unfold commandLines transmission
  rw [count_lf_encode, List.count_append]
  rfl

/-- A call leaves nothing behind: it wrote nothing, or a single line, and came to the end of its read. -/
def Call.Settled (c : Call) : Prop := c.first = none ∨ '\n' ∉ c.command ∧ c.outcome ≠ .timedOut

theorem settled_iff {c : Call} (h : c.reads ≤ c.lines) : c.Settled ↔ c.reads = c.lines := by
  unfold Call.Settled Call.reads Call.lines at *
  rw [commandLines_eq, ← List.count_eq_zero] at *
  cases hf : c.first with
  | none =>
    simp only [hf, Option.isSome_none, Bool.false_eq_true, if_false] at h ⊢
    simp only [true_or, true_iff]
    omega
  | some k =>
    simp only [Option.isSome_some, if_true, reduceCtorEq, false_or]
    split_ifs with ho
    · simp [ho]
    · simp only [ho, ne_eq, not_false_eq_true, and_true]
      omega

/-- Where no call reads more lines than it has written, as many lines are read as written iff all calls are settled. -/
theorem reads_eq_lines_iff {cs : List Call} (h : ∀ c ∈ cs, c.reads ≤ c.lines) :
    readsOf cs = linesOf cs ↔ ∀ c ∈ cs, c.Settled := by
  induction cs with
  | nil => simp [readsOf, linesOf]
  | cons c cs ih =>
    obtain ⟨hc, hcs⟩ := List.forall_mem_cons.1 h
    have hle : readsOf cs ≤ linesOf cs := List.sum_le_sum hcs
    have hcons : readsOf (c :: cs) = linesOf (c :: cs) ↔ c.reads = c.lines ∧ readsOf cs = linesOf cs := by
      simp only [readsOf, linesOf, List.map_cons, List.sum_cons] at hle ⊢
      omega
    rw [List.forall_mem_cons, settled_iff hc, hcons, ih hcs]

/-! ## The invariant -/

/-- The stream in which these replies arrive. -/
def wires (rs : List Bytes) : Bytes := rs.flatMap (· ++ [lf])

/-- The lines of the current call, after `n` lines of the others. -/
def Phase.Accounts (n sent : Nat) : Phase → Prop
  | .idle => sent = n
  | .started _ => sent = n
  | .draining command first => first = n ∧ sent = n + commandLines command
  | .reading command first => first = n ∧ sent = n + commandLines command
  | .receiving _ _ _ _ => False

/-- A call and those before it: it stands after their lines, and its reply after their replies. -/
def Call.Follows (pre : List Call) (c : Call) : Prop :=
  (∀ k, c.first = some k → k = linesOf pre) ∧ ∀ k v, c.outcome = .returned k v → c.first.isSome ∧ k = readsOf pre

/-- What a call returns is the reply in that line. -/
def Call.Valued (replies : List Bytes) (c : Call) : Prop :=
  ∀ k v, c.outcome = .returned k v → ∃ r, replies[k]? = some r ∧ readOk (r ++ [lf]) = some (v, [])

structure Link.Inv (s : Link) : Prop where
  replies : ∀ r ∈ s.replies, Reply r
  read_le : s.linesRead ≤ s.replies.length
  /-- What is still to be read are the replies that no read has taken. -/
  stream : s.buffer ++ s.inflight = wires (s.replies.drop s.linesRead)
  pending : s.phase.Accounts (linesOf s.calls) s.linesSent
  reads : s.linesRead = readsOf s.calls
  le : ∀ c ∈ s.calls, c.reads ≤ c.lines
  follows : EachAfter Call.Follows s.calls
  valued : ∀ c ∈ s.calls, c.Valued s.replies

theorem inv_new : Link.new.Inv where
  replies := by simp [Link.new]
  read_le := Nat.le_refl 0
  stream := rfl
  pending := rfl
  reads := rfl
  le := by simp [Link.new]
  follows := eachAfter_nil _
  valued := by simp [Link.new]

/-- A reply is never taken for the head of a frame. -/
theorem header_reply {r : Bytes} (hr : Reply r) (n : Nat) : header (r ++ [lf]) ≠ .ok (.size n) := by
  obtain ⟨hne, hhash, -⟩ := hr
  unfold header
  rw [rstrip_concat (by decide)]
  cases hs : rstrip r with
  | nil => simp
  | cons a data =>
    have ha : a ≠ 35 := by
      rintro rfl
      obtain ⟨t, ht⟩ := rstrip_isPrefix r
      rw [hs] at ht
      apply hhash
      rw [← ht]
      rfl
    simp only [ha, if_false]
    split <;> simp

theorem readOk_of_header {r : Bytes} (hr : Reply r) {t : Str} (h : header (r ++ [lf]) = .ok (.text t)) :
    readOk (r ++ [lf]) = some (.text t, []) := by
  unfold readOk read
  rw [readline_line hr.2.2]
  simp only [h]

/-- A buffer with a line in it has the whole first reply. -/
theorem buffer_line {b i r t : Bytes} (h : b ++ i = r ++ lf :: t) (hr : lf ∉ r) (hb : lf ∈ b) :
    ∃ b', b = r ++ lf :: b' ∧ b' ++ i = t := by
  rcases List.append_eq_append_iff.1 h with ⟨m, rfl, hm⟩ | ⟨m, rfl, hm⟩
  · -- the buffer is a part of the reply, without its line feed
    exact absurd (List.mem_append_left m hb) hr
  · cases m with
    | nil =>
      rw [List.append_nil] at hb
      exact absurd hb hr
    | cons a m =>
      obtain ⟨rfl, rfl⟩ := List.cons.inj hm
      exact ⟨m, rfl, rfl⟩

/-- A call that ends keeps the count. -/
theorem Link.Inv.finish {s t : Link} {command : Str} {first : Option Nat} {o : Outcome} (hs : s.Inv)
    (hreplies : t.replies = s.replies) (hcalls : t.calls = s.calls) (hread : t.linesRead ≤ s.replies.length)
    (hlines : t.linesSent = linesOf s.calls + Call.lines ⟨command, first, o⟩)
    (hreads : t.linesRead = s.linesRead + Call.reads ⟨command, first, o⟩)
    (hstream : t.buffer ++ t.inflight = wires (s.replies.drop t.linesRead))
    (hle : Call.reads ⟨command, first, o⟩ ≤ Call.lines ⟨command, first, o⟩)
    (hfollows : Call.Follows s.calls ⟨command, first, o⟩) (hvalued : Call.Valued s.replies ⟨command, first, o⟩) :
    (t.finish command first o).Inv where
  replies := hreplies ▸ hs.replies
  read_le := hreplies ▸ hread
  stream := by
    show t.buffer ++ t.inflight = wires (t.replies.drop t.linesRead)
    rw [hreplies]
    exact hstream
  pending := by
    show t.linesSent = linesOf (t.calls ++ [⟨command, first, o⟩])
    rw [hcalls, linesOf_concat, hlines]
  reads := by
    show t.linesRead = readsOf (t.calls ++ [⟨command, first, o⟩])
    rw [hcalls, readsOf_concat, hreads, hs.reads]
  le := by
    show ∀ c ∈ t.calls ++ [⟨command, first, o⟩], c.reads ≤ c.lines
    rw [hcalls]
    exact List.forall_mem_append.2 ⟨hs.le, List.forall_mem_singleton.2 hle⟩
  follows := by
    show EachAfter Call.Follows (t.calls ++ [⟨command, first, o⟩])
    rw [hcalls]
    exact eachAfter_concat.2 ⟨hs.follows, hfollows⟩
  valued := by
    show ∀ c ∈ t.calls ++ [⟨command, first, o⟩], c.Valued t.replies
    rw [hcalls, hreplies]
    exact List.forall_mem_append.2 ⟨hs.valued, List.forall_mem_singleton.2 hvalued⟩

/-- A call at its time limit leaves all replies as they are. -/
theorem Link.Inv.cancelled {s : Link} (hs : s.Inv) (command : Str) (first : Option Nat)
    (hlines : s.linesSent = linesOf s.calls + Call.lines ⟨command, first, .timedOut⟩)
    (hfirst : ∀ k, first = some k → k = linesOf s.calls) : (s.finish command first .timedOut).Inv :=
  hs.finish rfl rfl hs.read_le hlines rfl hs.stream (Nat.zero_le _) ⟨hfirst, fun k v h => by cases h⟩
    (fun k v h => by cases h)

theorem cancel_inv {s t : Link} (hs : s.Inv) (h : s.cancel = some t) : t.Inv := by
  have hp := hs.pending
  unfold Link.cancel at h
  cases hph : s.phase with
  | idle => rw [hph] at h; cases h
  | started command =>
    rw [hph] at h hp
    cases h
    exact hs.cancelled command none hp (fun k h => by cases h)
  | draining command first =>
    rw [hph] at h hp
    cases h
    exact hs.cancelled command (some first) hp.2 (fun k h => by cases h; exact hp.1)
  | reading command first =>
    rw [hph] at h hp
    cases h
    exact hs.cancelled command (some first) hp.2 (fun k h => by cases h; exact hp.1)
  | receiving command first line size =>
    rw [hph] at hp
    exact absurd hp id

/-- **A read** takes the first reply that no read has taken. -/
theorem readLine_inv {s t : Link} {command : Str} {first : Nat} (hs : s.Inv) (hph : s.phase = .reading command first)
    (h : s.readLine command first = some t) : t.Inv := by
  have hp := hs.pending
  rw [hph] at hp
  unfold Link.readLine at h
  split_ifs at h with hlf
  have hstream := hs.stream
  cases hd : s.replies.drop s.linesRead with
  | nil =>
    rw [hd] at hstream
    have hnil : s.buffer = [] := (List.append_eq_nil_iff.1 hstream).1
    rw [hnil] at hlf
    exact absurd hlf List.not_mem_nil
  | cons r rs =>
    have hget : s.replies[s.linesRead]? = some r := by
      rw [← List.head?_drop, hd, List.head?_cons]
    have hrs : s.replies.drop (s.linesRead + 1) = rs := by
      rw [← List.tail_drop, hd, List.tail_cons]
    have hr : Reply r := hs.replies r (List.mem_of_getElem? hget)
    have hsplit : s.buffer ++ s.inflight = r ++ lf :: wires rs := by
      rw [hstream, hd]
      simp [wires]
    obtain ⟨b, hb, hbi⟩ := buffer_line hsplit hr.2.2 hlf
    rw [hb, readline_line hr.2.2] at h
    have hread : s.linesRead + 1 ≤ s.replies.length := (List.getElem?_eq_some_iff.1 hget).1
    have hle : 1 ≤ commandLines command := by
      rw [commandLines_eq]
      omega
    have hstream' : b ++ s.inflight = wires (s.replies.drop (s.linesRead + 1)) := by
      rw [hrs]
      exact hbi
    simp only at h
    cases hh : header (r ++ [lf]) with
    | error e =>
      rw [hh] at h
      cases h
      exact hs.finish rfl rfl hread hp.2 rfl hstream' hle
        ⟨fun k hk => by cases hk; exact hp.1, fun k v hv => by cases hv⟩ (fun k v hv => by cases hv)
    | ok v =>
      cases v with
      | size n => exact absurd hh (header_reply hr n)
      | text v =>
        rw [hh] at h
        cases h
        refine hs.finish rfl rfl hread hp.2 rfl hstream' hle
          ⟨fun k hk => by cases hk; exact hp.1, fun k v hv => ?_⟩ fun k v hv => ?_
        · cases hv
          exact ⟨rfl, hs.reads⟩
        · cases hv
          exact ⟨r, hget, readOk_of_header hr hh⟩

theorem wires_concat (rs : List Bytes) (r : Bytes) : wires (rs ++ [r]) = wires rs ++ (r ++ [lf]) := by
  simp [wires]

theorem linesSent_append (s : Link) (b : Bytes) :
    ({ s with sent := s.sent ++ b } : Link).linesSent = s.linesSent + b.count lf := List.count_append

/-- The answer to the next line goes to the end of the stream. -/
theorem answer_inv {s : Link} {r : Bytes} (hs : s.Inv) (hr : Reply r) :
    Link.Inv { s with replies := s.replies ++ [r], inflight := s.inflight ++ (r ++ [lf]) } := by
  refine { hs with replies := ?_, read_le := ?_, stream := ?_, valued := ?_ }
  · exact List.forall_mem_append.2 ⟨hs.replies, List.forall_mem_singleton.2 hr⟩
  · show s.linesRead ≤ (s.replies ++ [r]).length
    rw [List.length_append]
    exact Nat.le_trans hs.read_le (Nat.le_add_right _ _)
  · show s.buffer ++ (s.inflight ++ (r ++ [lf])) = wires ((s.replies ++ [r]).drop s.linesRead)
    rw [List.drop_append_of_le_length hs.read_le, wires_concat, ← List.append_assoc, hs.stream]
  · intro c hc k v hv
    obtain ⟨r', hr', hread⟩ := hs.valued c hc k v hv
    exact ⟨r', (List.getElem?_append_left (List.getElem?_eq_some_iff.1 hr').1).trans hr', hread⟩

/-- **One step keeps the count.** -/
theorem linkStep_inv (s : Link) (e : Event) (t : Link) (hs : s.Inv) (h : linkStep s e = some t) : t.Inv := by
  have hp := hs.pending
  cases e with
  | call command =>
    simp only [linkStep] at h
    split_ifs at h with hph
    rw [hph] at hp
    cases h
    exact { hs with pending := hp }
  | write =>
    simp only [linkStep] at h
    cases hph : s.phase with
    | started command =>
      rw [hph] at h hp
      cases h
      exact { hs with pending := ⟨hp, (linesSent_append s _).trans (congrArg (· + _) hp)⟩ }
    | _ => rw [hph] at h; cases h
  | drained =>
    simp only [linkStep] at h
    cases hph : s.phase with
    | draining command first =>
      rw [hph] at h hp
      cases h
      exact { hs with pending := hp }
    | _ => rw [hph] at h; cases h
  | read =>
    simp only [linkStep] at h
    cases hph : s.phase with
    | reading command first =>
      rw [hph] at h
      exact readLine_inv hs hph h
    | receiving command first line size =>
      rw [hph] at hp
      exact absurd hp id
    | _ => rw [hph] at h; cases h
  | timeout => exact cancel_inv hs h
  | answer r =>
    simp only [linkStep] at h
    split_ifs at h with hr
    cases h
    exact answer_inv hs hr.2
  | arrive n =>
    simp only [linkStep] at h
    split_ifs at h with hn
    cases h
    refine { hs with stream := ?_ }
    show s.buffer ++ s.inflight.take n ++ s.inflight.drop n = _
    rw [List.append_assoc, List.take_append_drop]
    exact hs.stream

theorem run_inv_new {es : List Event} {s : Link} (h : run linkStep Link.new es = some s) : s.Inv :=
  run_inv linkStep_inv h inv_new

/-! ## Pairing -/

/-- Every call that returned has the reply to its own command, which its first line is. -/
def Link.Paired (s : Link) : Prop :=
  ∀ c ∈ s.calls, ∀ k v, c.outcome = .returned k v →
    c.first = some k ∧ ∃ r, s.replies[k]? = some r ∧ readOk (r ++ [lf]) = some (v, [])

/-- No call returns after one that left something behind. -/
def Call.InTurn (pre : List Call) (c : Call) : Prop := (∃ k v, c.outcome = .returned k v) → ∀ d ∈ pre, d.Settled

/-- A call that returned has its own reply iff the calls before it are settled. -/
theorem first_iff_settled {pre : List Call} {c : Call} (hle : ∀ d ∈ pre, d.reads ≤ d.lines) (hc : c.Follows pre)
    {k : Nat} {v : Value} (hv : c.outcome = .returned k v) : c.first = some k ↔ ∀ d ∈ pre, d.Settled := by
  obtain ⟨hsome, hk⟩ := hc.2 k v hv
  obtain ⟨first, hfirst⟩ := Option.isSome_iff_exists.1 hsome
  have hf := hc.1 first hfirst
  rw [← reads_eq_lines_iff hle, hfirst, Option.some_inj, hf, hk]
  exact eq_comm

/-- **Calls and replies are paired iff no call returns after one that left something behind**: in every run, of any
calls, time limits and arrivals. -/
theorem paired_iff {es : List Event} {s : Link} (h : run linkStep Link.new es = some s) :
    s.Paired ↔ EachAfter Call.InTurn s.calls := by
  have hs := run_inv_new h
  constructor
  · rintro hp pre c post hcalls ⟨k, v, hv⟩
    have hc : c ∈ s.calls := by rw [hcalls]; simp
    have hle : ∀ d ∈ pre, d.reads ≤ d.lines := fun d hd => hs.le d (by rw [hcalls]; simp [hd])
    exact (first_iff_settled hle (hs.follows pre c post hcalls) hv).1 (hp c hc k v hv).1
  · intro hturn c hc k v hv
    obtain ⟨pre, post, hcalls⟩ := List.append_of_mem hc
    have hle : ∀ d ∈ pre, d.reads ≤ d.lines := fun d hd => hs.le d (by rw [hcalls]; simp [hd])
    refine ⟨?_, hs.valued c hc k v hv⟩
    exact (first_iff_settled hle (hs.follows pre c post hcalls) hv).2 (hturn pre c post hcalls ⟨k, v, hv⟩)

/-- `identify` gives up while its reply is on its way; `get_run` reads it. -/
def lateReply : List Event :=
  [.call "*IDN?".toList, .write, .drained, .timeout, .call "*RUNStop?".toList, .write, .answer (encode "OWON".toList),
    .arrive 5, .drained, .read]

theorem lateReply_not_paired : ∃ s, run linkStep Link.new lateReply = some s ∧ ¬ s.Paired := by
  obtain ⟨s, hs, hcalls⟩ := Option.map_eq_some_iff.1
    (by decide +kernel : (run linkStep Link.new lateReply).map Link.calls =
      some [⟨"*IDN?".toList, some 0, .timedOut⟩, ⟨"*RUNStop?".toList, some 1, .returned 0 (.text "OWON".toList)⟩])
  refine ⟨s, hs, fun hp => ?_⟩
  have h := (hp _ (by rw [hcalls]; exact List.mem_cons_of_mem _ List.mem_cons_self) 0 _ rfl).1
  exact absurd h (by decide)

/-- A time limit before the write, and a reply in two pieces. -/
def earlyLimit : List Event :=
  [.call "*IDN?".toList, .timeout, .call "*RUNStop?".toList, .write, .answer (encode "RUN".toList), .drained, .arrive 2,
    .arrive 2, .read]

theorem paired_iff_earlyLimit :
    ∃ s, run linkStep Link.new earlyLimit = some s ∧ s.Paired ∧
      s.calls.map Call.outcome = [.timedOut, .returned 0 (.text "RUN".toList)] := by
  obtain ⟨s, hs, hcalls⟩ := Option.map_eq_some_iff.1
    (by decide +kernel : (run linkStep Link.new earlyLimit).map Link.calls =
      some [⟨"*IDN?".toList, none, .timedOut⟩, ⟨"*RUNStop?".toList, some 0, .returned 0 (.text "RUN".toList)⟩])
  refine ⟨s, hs, (paired_iff hs).2 ?_, by rw [hcalls]; rfl⟩
  rw [hcalls]
  show EachAfter Call.InTurn ([] ++ [_] ++ [_])
  rw [eachAfter_concat, eachAfter_concat]
  refine ⟨⟨eachAfter_nil _, fun _ d hd => absurd hd List.not_mem_nil⟩, fun _ d hd => ?_⟩
  cases List.mem_singleton.1 hd
  exact .inl rfl

end OwonVds.Scpi
