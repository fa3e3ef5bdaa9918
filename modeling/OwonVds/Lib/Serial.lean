import Mathlib.Data.List.Basic
import Mathlib.Tactic.SplitIfs

/-!
# Serial execution

An object that is asked one request at a time: `ask r d` is the answer to `r` in state `d`, and the state after it. A
log says for each request who made it and what was answered. `Legal ask d L d'` says that the object, asked the requests
of `L` in this order from `d` on, gives the answers of `L`, and is left in `d'`; `own c L` is what `L` has of one
client.

A concurrent service is serial when the answers of its clients are those of a legal log, each client finding its own
requests there in the order in which it made them.
-/

namespace OwonVds.Serial

variable {ι ρ α δ : Type*} {ask : ρ → δ → α × δ}

/-- The object gives these answers, and is left in the state `d'`. -/
def Legal (ask : ρ → δ → α × δ) : δ → List (ι × ρ × α) → δ → Prop
  | d, [], d' => d' = d
  | d, (_, r, a) :: L, d' => (ask r d).1 = a ∧ Legal ask (ask r d).2 L d'

theorem legal_append {d d' : δ} {L L' : List (ι × ρ × α)} :
    Legal ask d (L ++ L') d' ↔ ∃ m, Legal ask d L m ∧ Legal ask m L' d' := by
  induction L generalizing d with
  | nil => simp [Legal]
  | cons e L ih =>
    obtain ⟨c, r, a⟩ := e
    simp only [List.cons_append, Legal, ih]
    constructor
    · rintro ⟨ha, m, hm, h⟩
      exact ⟨m, ⟨ha, hm⟩, h⟩
    · rintro ⟨m, ⟨ha, hm⟩, h⟩
      exact ⟨ha, m, hm, h⟩

/-- One more request. -/
theorem Legal.concat {d m : δ} {L : List (ι × ρ × α)} (h : Legal ask d L m) (c : ι) (r : ρ) :
    Legal ask d (L ++ [(c, r, (ask r m).1)]) (ask r m).2 :=
  legal_append.2 ⟨m, h, rfl, rfl⟩

variable [DecidableEq ι]

/-- The requests of one client, with their answers. -/
def own (c : ι) (L : List (ι × ρ × α)) : List (ρ × α) :=
  L.filterMap fun (c', r, a) => if c' = c then some (r, a) else none

@[simp] theorem own_append (c : ι) (L L' : List (ι × ρ × α)) : own c (L ++ L') = own c L ++ own c L' := by
  simp [own]

@[simp] theorem own_self (c : ι) (r : ρ) (a : α) : own c [(c, r, a)] = [(r, a)] := by
  simp [own]

/-- A request that a client finds among its own is in the log, after the client's earlier ones. -/
theorem own_eq_append {c : ι} {L : List (ι × ρ × α)} {A B : List (ρ × α)} {r : ρ} {a : α}
    (h : own c L = A ++ (r, a) :: B) : ∃ pre post, L = pre ++ (c, r, a) :: post ∧ own c pre = A ∧ own c post = B := by
  obtain ⟨L₁, L₂, rfl, h₁, h₂⟩ := List.filterMap_eq_append_iff.1 h
  obtain ⟨M₁, ⟨c', r', a'⟩, M₂, rfl, hnone, he, hB⟩ := List.filterMap_eq_cons_iff.1 h₂
  have hM : own c M₁ = [] := List.filterMap_eq_nil_iff.2 hnone
  have hA : own c L₁ = A := h₁
  dsimp only at he
  split_ifs at he with hc
  cases he
  subst hc
  refine ⟨L₁ ++ M₁, M₂, by simp, ?_, hB⟩
  rw [own_append, hA, hM, List.append_nil]

theorem own_other {c c' : ι} (h : c' ≠ c) (r : ρ) (a : α) : own c [(c', r, a)] = [] := by
  simp [own, h]

end OwonVds.Serial
