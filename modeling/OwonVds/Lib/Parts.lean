import Mathlib.Algebra.GroupWithZero.Nat
import Mathlib.Data.List.Basic

/-!
# Messages sent in parts

A sender hands a message to a channel part by part. The channel takes a first part of each block it is offered, as long
as the schedule says. A part is offered once, whatever is taken of it, or in a loop: again and again what is left of it,
in blocks of at most `bound`, until nothing is.

`send` gives what the channel takes of the parts, and the schedule that is left; a sender that wants to go on at the end
of the schedule has not finished (`none`). A loop that ends has sent its payload (`sendLoop_ok`), so that a message is
sent whole if and only if every block that is offered once is taken whole (`send_whole_iff`). Where the schedule is long
enough and its writes take everything, a message is sent whole (`send_enough`).
-/

namespace OwonVds.Parts

variable {α : Type*}

/-- A part of a message. -/
inductive MessagePart (α : Type*)
  | once (block : List α)
  | loop (bound : Nat) (payload : List α)
  deriving DecidableEq, Repr

/-- What a part is to put on the channel. -/
def MessagePart.content : MessagePart α → List α
  | .once block => block
  | .loop _ payload => payload

/-- The message. -/
def message (ps : List (MessagePart α)) : List α := ps.flatMap MessagePart.content

/-- What a loop puts on the channel, and the schedule after it. -/
def sendLoop (bound : Nat) : List α → List Nat → Option (List α × List Nat)
  | [], ks => some ([], ks)
  | _ :: _, [] => none
  | a :: p, k :: ks =>
    (sendLoop bound ((a :: p).drop (min k bound)) ks).map fun (w, rest) => ((a :: p).take (min k bound) ++ w, rest)
  termination_by structural _ ks => ks

def sendPart : MessagePart α → List Nat → Option (List α × List Nat)
  | .once _, [] => none
  | .once block, k :: ks => some (block.take k, ks)
  | .loop bound payload, ks => sendLoop bound payload ks

/-- What the channel takes of the parts, and the schedule after them. -/
def send : List (MessagePart α) → List Nat → Option (List α × List Nat)
  | [], ks => some ([], ks)
  | p :: ps, ks => (sendPart p ks).bind fun (w, ks') => (send ps ks').map fun (w', rest) => (w ++ w', rest)

/-- Every block that is offered once is taken whole. -/
def OnceWhole : List (MessagePart α) → List Nat → Prop
  | [], _ => True
  | .once _ :: _, [] => False
  | .once block :: ps, k :: ks => block.length ≤ k ∧ OnceWhole ps ks
  | .loop bound payload :: ps, ks =>
    match sendLoop bound payload ks with
    | some (_, rest) => OnceWhole ps rest
    | none => True

/-! ## Loops -/

theorem sendLoop_cons {bound k : Nat} {p : List α} (hp : p ≠ []) (ks : List Nat) :
    sendLoop bound p (k :: ks) =
      (sendLoop bound (p.drop (min k bound)) ks).map fun (w, rest) => (p.take (min k bound) ++ w, rest) := by
  cases p with
  | nil => exact absurd rfl hp
  | cons a p => rfl

theorem sendLoop_stuck {bound : Nat} {p : List α} (hp : p ≠ []) : sendLoop bound p [] = none := by
  cases p with
  | nil => exact absurd rfl hp
  | cons a p => rfl

@[simp] theorem sendLoop_nil (bound : Nat) (ks : List Nat) : sendLoop bound ([] : List α) ks = some ([], ks) := by
  cases ks <;> rfl

/-- **A loop sends its payload**, each element once and in order. -/
theorem sendLoop_ok {bound : Nat} {p w : List α} {ks rest : List Nat} (h : sendLoop bound p ks = some (w, rest)) :
    w = p := by
  induction ks generalizing p w with
  | nil =>
    cases p with
    | nil => cases h; rfl
    | cons a p => cases h
  | cons k ks ih =>
    by_cases hp : p = []
    · subst hp
      rw [sendLoop_nil] at h
      cases h
      rfl
    · rw [sendLoop_cons hp, Option.map_eq_some_iff] at h
      obtain ⟨⟨w', rest'⟩, hs, he⟩ := h
      cases he
      rw [ih hs, List.take_append_drop]

/-- A loop that is offered enough writes, each of which takes something, ends. -/
theorem sendLoop_enough {bound : Nat} (hb : 0 < bound) {p : List α} {ks : List Nat} (hks : ∀ k ∈ ks, 0 < k)
    (hlen : p.length ≤ ks.length) :
    ∃ rest, sendLoop bound p ks = some (p, rest) ∧ rest <:+ ks ∧ ks.length ≤ p.length + rest.length := by
  induction ks generalizing p with
  | nil =>
    have hp : p = [] := List.length_eq_zero_iff.1 (Nat.le_zero.1 hlen)
    subst hp
    exact ⟨[], rfl, List.suffix_refl _, Nat.le_refl _⟩
  | cons k ks ih =>
    by_cases hp : p = []
    · subst hp
      exact ⟨k :: ks, sendLoop_nil _ _, List.suffix_refl _, by simp⟩
    · have hk := hks k List.mem_cons_self
      have hpos := List.length_pos_of_ne_nil hp
      rw [List.length_cons] at hlen
      have hdrop : (p.drop (min k bound)).length ≤ ks.length := by
        rw [List.length_drop]
        omega
      obtain ⟨rest, hs, hsuf, hl⟩ := ih (fun j hj => hks j (List.mem_cons_of_mem _ hj)) hdrop
      refine ⟨rest, ?_, hsuf.trans (List.suffix_cons k ks), ?_⟩
      · rw [sendLoop_cons hp, hs]
        simp
      · rw [List.length_drop] at hl
        rw [List.length_cons]
        omega

/-! ## Schedules that go on for ever -/

/-- The schedule takes something again and again. -/
def Fair (σ : Nat → Nat) : Prop := ∀ n, ∃ m, n ≤ m ∧ 0 < σ m

/-- The first writes of an infinite schedule. -/
def firstWrites (σ : Nat → Nat) (n : Nat) : List Nat := (List.range n).map σ

/-- A fair schedule takes something as often as wanted. -/
theorem Fair.count {σ : Nat → Nat} (h : Fair σ) (c : Nat) :
    ∃ N, ∀ n, N ≤ n → c ≤ (firstWrites σ n).countP (0 < ·) := by
  induction c with
  | zero => exact ⟨0, fun n _ => Nat.zero_le _⟩
  | succ c ih =>
    obtain ⟨N, hN⟩ := ih
    obtain ⟨m, hm, hpos⟩ := h N
    refine ⟨m + 1, fun n hn => ?_⟩
    have hfirst : firstWrites σ (m + 1) = firstWrites σ m ++ [σ m] := by
      simp [firstWrites, List.range_succ]
    have hprefix : firstWrites σ (m + 1) <+: firstWrites σ n := by
      obtain ⟨k, rfl⟩ := Nat.exists_eq_add_of_le hn
      unfold firstWrites
      rw [List.range_add (m := k), List.map_append]
      exact List.prefix_append _ _
    have hcount := hN m hm
    calc c + 1 ≤ (firstWrites σ (m + 1)).countP (0 < ·) := by simpa [hfirst, List.countP_append, hpos] using hcount
      _ ≤ (firstWrites σ n).countP (0 < ·) := hprefix.sublist.countP_le

/-- A loop ends where as many writes take something as its payload has elements. -/
theorem sendLoop_ends {bound : Nat} (hb : 0 < bound) {p : List α} {ks : List Nat}
    (h : p.length ≤ ks.countP (0 < ·)) : ∃ rest, sendLoop bound p ks = some (p, rest) := by
  induction ks generalizing p with
  | nil =>
    have hp : p = [] := List.length_eq_zero_iff.1 (Nat.le_zero.1 h)
    subst hp
    exact ⟨[], rfl⟩
  | cons k ks ih =>
    by_cases hp : p = []
    · subst hp
      exact ⟨k :: ks, sendLoop_nil _ _⟩
    · have hdrop : (p.drop (min k bound)).length ≤ ks.countP (0 < ·) := by
        rw [List.length_drop]
        rw [List.countP_cons] at h
        by_cases hk : 0 < k
        · simp only [hk, decide_true, if_true] at h
          omega
        · simp only [hk, decide_false, Bool.false_eq_true, if_false] at h
          omega
      obtain ⟨rest, hs⟩ := ih hdrop
      refine ⟨rest, ?_⟩
      rw [sendLoop_cons hp, hs]
      simp

/-- **On a fair schedule a loop ends.** -/
theorem sendLoop_fair {bound : Nat} (hb : 0 < bound) {σ : Nat → Nat} (hσ : Fair σ) (p : List α) :
    ∃ N, ∀ n, N ≤ n → ∃ rest, sendLoop bound p (firstWrites σ n) = some (p, rest) := by
  obtain ⟨N, hN⟩ := hσ.count p.length
  exact ⟨N, fun n hn => sendLoop_ends hb (hN n hn)⟩

/-! ## Messages -/

theorem message_cons (p : MessagePart α) (ps : List (MessagePart α)) :
    message (p :: ps) = p.content ++ message ps := rfl

theorem message_append (ps qs : List (MessagePart α)) : message (ps ++ qs) = message ps ++ message qs := by
  unfold message
  rw [List.flatMap_append]

theorem send_cons_eq {p : MessagePart α} {ps : List (MessagePart α)} {ks rest : List Nat} {w : List α} :
    send (p :: ps) ks = some (w, rest) ↔
      ∃ w₁ ks' w₂, sendPart p ks = some (w₁, ks') ∧ send ps ks' = some (w₂, rest) ∧ w = w₁ ++ w₂ := by
  simp only [send, Option.bind_eq_some_iff, Option.map_eq_some_iff, Prod.exists, Prod.mk.injEq]
  constructor
  · rintro ⟨w₁, ks', h₁, w₂, rest', h₂, rfl, rfl⟩
    exact ⟨w₁, ks', w₂, h₁, h₂, rfl⟩
  · rintro ⟨w₁, ks', w₂, h₁, h₂, rfl⟩
    exact ⟨w₁, ks', h₁, w₂, rest, h₂, rfl, rfl⟩

/-- A loop alone. -/
theorem send_loop (bound : Nat) (p : List α) (ks : List Nat) : send [.loop bound p] ks = sendLoop bound p ks := by
  simp only [send, sendPart]
  cases sendLoop bound p ks with
  | none => rfl
  | some r => simp

theorem send_append (ps qs : List (MessagePart α)) (ks : List Nat) :
    send (ps ++ qs) ks = (send ps ks).bind fun (w, ks') => (send qs ks').map fun (w', rest) => (w ++ w', rest) := by
  induction ps generalizing ks with
  | nil => simp [send]
  | cons p ps ih =>
    simp only [List.cons_append, send, ih]
    cases sendPart p ks with
    | none => rfl
    | some r =>
      obtain ⟨w, ks'⟩ := r
      simp only [Option.bind_some]
      cases send ps ks' with
      | none => rfl
      | some r' =>
        obtain ⟨w', ks''⟩ := r'
        simp only [Option.bind_some, Option.map_some]
        cases send qs ks'' with
        | none => rfl
        | some r'' => simp

/-- No part puts more on the channel than its content. -/
theorem sendPart_length_le {p : MessagePart α} {ks rest : List Nat} {w : List α} (h : sendPart p ks = some (w, rest)) :
    w.length ≤ p.content.length := by
  cases p with
  | once block =>
    cases ks with
    | nil => cases h
    | cons k ks =>
      cases h
      exact List.length_take_le' _ _
  | loop bound payload =>
    rw [sendLoop_ok h]
    exact Nat.le_refl _

theorem send_length_le {ps : List (MessagePart α)} {ks rest : List Nat} {w : List α} (h : send ps ks = some (w, rest)) :
    w.length ≤ (message ps).length := by
  induction ps generalizing ks w with
  | nil => cases h; exact Nat.le_refl _
  | cons p ps ih =>
    obtain ⟨w₁, ks', w₂, h₁, h₂, rfl⟩ := send_cons_eq.1 h
    rw [message_cons, List.length_append, List.length_append]
    exact Nat.add_le_add (sendPart_length_le h₁) (ih h₂)

/-- **When the whole message is sent**: when every block that is offered once is taken whole. -/
theorem send_whole_iff {ps : List (MessagePart α)} {ks rest : List Nat} {w : List α} (h : send ps ks = some (w, rest)) :
    w = message ps ↔ OnceWhole ps ks := by
  induction ps generalizing ks w with
  | nil =>
    cases h
    exact iff_of_true rfl trivial
  | cons p ps ih =>
    obtain ⟨w₁, ks', w₂, h₁, h₂, rfl⟩ := send_cons_eq.1 h
    have hrest := ih h₂
    have hle := send_length_le h₂
    rw [message_cons]
    cases p with
    | once block =>
      cases ks with
      | nil => cases h₁
      | cons k ks =>
        cases h₁
        show block.take k ++ w₂ = block ++ message ps ↔ block.length ≤ k ∧ OnceWhole ps ks'
        rw [← hrest]
        constructor
        · intro he
          -- what comes after the block is no longer than the rest of the message
          have hl := congrArg List.length he
          rw [List.length_append, List.length_append, List.length_take] at hl
          have hk : block.length ≤ k := by omega
          rw [List.take_of_length_le hk] at he
          exact ⟨hk, List.append_cancel_left he⟩
        · rintro ⟨hk, rfl⟩
          rw [List.take_of_length_le hk]
    | loop bound payload =>
      have hs : sendLoop bound payload ks = some (w₁, ks') := h₁
      have hw : (MessagePart.loop bound payload).content = w₁ := (sendLoop_ok hs).symm
      have hdef : OnceWhole (.loop bound payload :: ps) ks ↔ OnceWhole ps ks' := by
        simp only [OnceWhole, hs]
      rw [hdef, ← hrest, hw, List.append_cancel_left_eq]

/-! ## Enough writes -/

/-- As many writes as a part needs, if each takes something. -/
def MessagePart.writes : MessagePart α → Nat
  | .once _ => 1
  | .loop _ payload => payload.length

/-- The part offers no block of more than `n`, and its loop offers something. -/
def MessagePart.Within (n : Nat) : MessagePart α → Prop
  | .once block => block.length ≤ n
  | .loop bound _ => 0 < bound ∧ bound ≤ n

theorem sendPart_enough {n : Nat} (hn : 0 < n) {p : MessagePart α} (hp : p.Within n) {ks : List Nat}
    (hks : ∀ k ∈ ks, n ≤ k) (hlen : p.writes ≤ ks.length) :
    ∃ rest, sendPart p ks = some (p.content, rest) ∧ rest <:+ ks ∧ ks.length ≤ p.writes + rest.length := by
  cases p with
  | once block =>
    cases ks with
    | nil => exact absurd hlen (by simp [MessagePart.writes])
    | cons k ks =>
      have hk : block.length ≤ k := Nat.le_trans hp (hks k List.mem_cons_self)
      refine ⟨ks, ?_, List.suffix_cons k ks, ?_⟩
      · rw [sendPart, List.take_of_length_le hk]
        rfl
      · rw [List.length_cons, MessagePart.writes]
        omega
  | loop bound payload =>
    have hpos : ∀ k ∈ ks, 0 < k := fun k hk => Nat.lt_of_lt_of_le hn (hks k hk)
    exact sendLoop_enough hp.1 hpos hlen

/-- **Writes that take everything they are offered send the message**, if there are enough of them. -/
theorem send_enough {n : Nat} (hn : 0 < n) {ps : List (MessagePart α)} (hps : ∀ p ∈ ps, p.Within n) {ks : List Nat}
    (hks : ∀ k ∈ ks, n ≤ k) (hlen : (ps.map MessagePart.writes).sum ≤ ks.length) :
    ∃ rest, send ps ks = some (message ps, rest) := by
  induction ps generalizing ks with
  | nil => exact ⟨ks, rfl⟩
  | cons p ps ih =>
    rw [List.map_cons, List.sum_cons] at hlen
    obtain ⟨hp, hrest⟩ := List.forall_mem_cons.1 hps
    obtain ⟨ks', hs, hsuf, hl⟩ := sendPart_enough hn hp hks (by omega)
    obtain ⟨rest, hr⟩ := ih hrest (fun k hk => hks k (hsuf.subset hk)) (by omega)
    exact ⟨rest, send_cons_eq.2 ⟨_, _, _, hs, hr, message_cons p ps⟩⟩

/-- A loop can be let send its payload, whatever comes after it. -/
theorem exists_sendLoop {bound : Nat} (n : Nat) (payload : List α) (hb : payload ≠ [] → 0 < bound)
    (hn : payload.length ≤ n) : ∃ ks, ∀ rest, sendLoop bound payload (ks ++ rest) = some (payload, rest) := by
  induction n generalizing payload with
  | zero =>
    obtain rfl := List.eq_nil_of_length_eq_zero (Nat.le_zero.1 hn)
    exact ⟨[], fun rest => by cases rest <;> rfl⟩
  | succ n ih =>
    by_cases hp : payload = []
    · subst hp
      exact ⟨[], fun rest => by cases rest <;> rfl⟩
    · have hlen := List.length_pos_of_ne_nil hp
      have hpos := hb hp
      obtain ⟨ks, hks⟩ := ih (payload.drop bound) (fun _ => hpos) (by rw [List.length_drop]; omega)
      refine ⟨bound :: ks, fun rest => ?_⟩
      rw [List.cons_append, sendLoop_cons hp, Nat.min_self, hks]
      show some (payload.take bound ++ payload.drop bound, rest) = _
      rw [List.take_append_drop]

/-- **A channel can take a message whole.** -/
theorem exists_send_whole {ps : List (MessagePart α)}
    (hps : ∀ bound payload, .loop bound payload ∈ ps → payload ≠ [] → 0 < bound) :
    ∃ ks, OnceWhole ps ks ∧ send ps ks = some (message ps, []) := by
  induction ps with
  | nil => exact ⟨[], trivial, rfl⟩
  | cons p ps ih =>
    obtain ⟨ks, hw, hs⟩ := ih fun bound payload hp => hps bound payload (List.mem_cons_of_mem p hp)
    cases p with
    | once block =>
      refine ⟨block.length :: ks, ⟨Nat.le_refl _, hw⟩, send_cons_eq.2 ⟨_, _, _, ?_, hs, message_cons ..⟩⟩
      rw [sendPart, List.take_length]
      rfl
    | loop bound payload =>
      obtain ⟨ks', hl⟩ := exists_sendLoop _ payload (hps bound payload List.mem_cons_self) (Nat.le_refl _)
      refine ⟨ks' ++ ks, ?_, send_cons_eq.2 ⟨_, _, _, hl ks, hs, message_cons ..⟩⟩
      rw [OnceWhole, hl]
      exact hw

end OwonVds.Parts
