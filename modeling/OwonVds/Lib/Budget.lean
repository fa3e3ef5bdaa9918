import Mathlib.Data.List.Basic
import OwonVds.Lib.Exec

/-!
# Programs that use up a budget

A program that makes objects as long as there is room for them: `spend e` takes one from the budget, or throws `e` where
nothing is left. `Effort` says what a program takes, if there is enough: how much it spends, and whether it then stops
with an exception of its own. `Ends X m s f Q R` says of a program `m` with the effort `f` how it ends from the state
`s`: with enough budget it returns a value and a state with `Q`, or stops in a state with `R`; with less it throws, with
`X`. The rules for sequences and loops add the efforts up.
-/

namespace OwonVds.Budget

variable {ε σ α β : Type}

structure Metered (σ : Type) where
  state : σ
  budget : Nat

def spend (e : ε) : EStateM ε (Metered σ) Unit := do
  let s ← get
  if s.budget = 0 then throw e else set { s with budget := s.budget - 1 }

/-- The state, without the budget. -/
def current : EStateM ε (Metered σ) σ := do return (← get).state

def update (g : σ → σ) : EStateM ε (Metered σ) Unit := modify fun s => { s with state := g s.state }

/-! ## Efforts -/

structure Effort (ε : Type) where
  spent : Nat
  /-- The exception the program stops with. -/
  stop : Option ε

namespace Effort

def nothing : Effort ε := ⟨0, none⟩

def one : Effort ε := ⟨1, none⟩

def stopped (e : ε) : Effort ε := ⟨0, some e⟩

def andThen (f g : Effort ε) : Effort ε :=
  match f.stop with
  | none => ⟨f.spent + g.spent, g.stop⟩
  | some _ => f

/-- One after the other. -/
def all (f : α → Effort ε) : List α → Effort ε
  | [] => nothing
  | a :: l => (f a).andThen (all f l)

theorem andThen_of_none {f g : Effort ε} (h : f.stop = none) : f.andThen g = ⟨f.spent + g.spent, g.stop⟩ := by
  simp [andThen, h]

theorem andThen_of_some {f g : Effort ε} {e : ε} (h : f.stop = some e) : f.andThen g = f := by
  simp [andThen, h]

theorem andThen_stop_eq_none {f g : Effort ε} : (f.andThen g).stop = none ↔ f.stop = none ∧ g.stop = none := by
  cases hf : f.stop with
  | none => simp [andThen_of_none hf]
  | some e => simp [andThen_of_some hf, hf]

theorem all_stop_eq_none {f : α → Effort ε} {l : List α} : (all f l).stop = none ↔ ∀ a ∈ l, (f a).stop = none := by
  induction l with
  | nil => simp [all, nothing]
  | cons a l ih => simp [all, andThen_stop_eq_none, ih]

@[simp] theorem nothing_andThen (f : Effort ε) : nothing.andThen f = f := by
  simp [andThen, nothing]

@[simp] theorem andThen_nothing (f : Effort ε) : f.andThen nothing = f := by
  obtain ⟨n, _ | e⟩ := f <;> simp [andThen, nothing]

theorem andThen_assoc (f g h : Effort ε) : (f.andThen g).andThen h = f.andThen (g.andThen h) := by
  obtain ⟨n, _ | e⟩ := f
  · obtain ⟨k, _ | e⟩ := g
    · simp [andThen, Nat.add_assoc]
    · simp [andThen]
  · simp [andThen]

end Effort

open Effort

/-! ## How a program ends -/

structure Ends (X : ε → σ → Prop) (m : EStateM ε (Metered σ) α) (s : σ) (f : Effort ε) (Q : α → σ → Prop)
    (R : σ → Prop) : Prop where
  returns : f.stop = none → ∀ b, f.spent ≤ b → ∃ a t, m ⟨s, b⟩ = .ok a ⟨t, b - f.spent⟩ ∧ Q a t
  stops : ∀ e, f.stop = some e → ∀ b, f.spent ≤ b → ∃ t b', m ⟨s, b⟩ = .error e ⟨t, b'⟩ ∧ R t
  fails : ∀ b, b < f.spent → ∃ e t b', m ⟨s, b⟩ = .error e ⟨t, b'⟩ ∧ X e t

variable {X X' : ε → σ → Prop} {s : σ} {f g : Effort ε} {Q Q' : α → σ → Prop} {R R' : σ → Prop}
  {m : EStateM ε (Metered σ) α}

theorem Ends.mono (h : Ends X m s f Q R) (hX : ∀ e t, X e t → X' e t) (hQ : ∀ a t, Q a t → Q' a t)
    (hR : ∀ t, R t → R' t) : Ends X' m s f Q' R' where
  returns hn b hb := by
    obtain ⟨a, t, hm, hq⟩ := h.returns hn b hb
    exact ⟨a, t, hm, hQ a t hq⟩
  stops e he b hb := by
    obtain ⟨t, b', hm, hr⟩ := h.stops e he b hb
    exact ⟨t, b', hm, hR t hr⟩
  fails b hb := by
    obtain ⟨e, t, b', hm, hx⟩ := h.fails b hb
    exact ⟨e, t, b', hm, hX e t hx⟩

theorem ends_pure {a : α} (h : Q a s) : Ends X (pure a) s nothing Q R where
  returns _ b _ := ⟨a, s, rfl, h⟩
  stops e he := by cases he
  fails b hb := absurd hb (Nat.not_lt_zero b)

theorem ends_throw (e : ε) (h : R s) : Ends X (throw e : EStateM ε (Metered σ) α) s (stopped e) Q R where
  returns he := by cases he
  stops e' he b _ := by
    cases he
    exact ⟨s, b, rfl, h⟩
  fails b hb := absurd hb (Nat.not_lt_zero b)

theorem ends_update (k : σ → σ) : Ends X (update k) s nothing (fun _ t => t = k s) R where
  returns _ b _ := ⟨(), k s, rfl, rfl⟩
  stops e he := by cases he
  fails b hb := absurd hb (Nat.not_lt_zero b)

theorem ends_current : Ends X current s nothing (fun a t => a = s ∧ t = s) R where
  returns _ b _ := ⟨s, s, rfl, rfl, rfl⟩
  stops e he := by cases he
  fails b hb := absurd hb (Nat.not_lt_zero b)

theorem spend_run (e : ε) (s : σ) (b : Nat) :
    spend e (⟨s, b⟩ : Metered σ) = if b = 0 then .error e ⟨s, b⟩ else .ok () ⟨s, b - 1⟩ := by
  show (if b = 0 then throw e else set _ : EStateM ε (Metered σ) Unit) _ = _
  split_ifs <;> rfl

theorem ends_spend {e : ε} (h : X e s) : Ends X (spend e) s one (fun _ t => t = s) R where
  returns _ b hb := by
    have hb : 1 ≤ b := hb
    exact ⟨(), s, by rw [spend_run, if_neg (by omega)]; rfl, rfl⟩
  stops e he := by cases he
  fails b hb := by
    have hb : b < 1 := hb
    exact ⟨e, s, b, by rw [spend_run, if_pos (by omega)], h⟩

/-- A program that does not stop meets every condition on where it stops. -/
theorem Ends.of_none (h : Ends X m s f Q R) (hf : f.stop = none) : Ends X m s f Q R' where
  returns := h.returns
  stops e he := by
    rw [hf] at he
    cases he
  fails := h.fails

/-- What comes after a program that stops does not matter. -/
theorem Ends.bind_stopped {k : α → EStateM ε (Metered σ) β} {P : β → σ → Prop} {e : ε} (hm : Ends X m s f Q R)
    (hf : f.stop = some e) : Ends X (m >>= k) s f P R where
  returns hn := by
    rw [hf] at hn
    cases hn
  stops e' he' b hb := by
    obtain ⟨t, b', hrun, hr⟩ := hm.stops e' he' b hb
    exact ⟨t, b', Exec.bind_of_error hrun, hr⟩
  fails b hb := by
    obtain ⟨e', t, b', hrun, hx⟩ := hm.fails b hb
    exact ⟨e', t, b', Exec.bind_of_error hrun, hx⟩

/-- **The sequence rule.** -/
theorem Ends.bind {k : α → EStateM ε (Metered σ) β} {P : β → σ → Prop} (hm : Ends X m s f Q R)
    (hk : ∀ a t, Q a t → Ends X (k a) t g P R) : Ends X (m >>= k) s (f.andThen g) P R := by
  cases hf : f.stop with
  | some e =>
    rw [andThen_of_some hf]
    exact hm.bind_stopped hf
  | none =>
    rw [andThen_of_none hf]
    constructor
    · intro hn b hb
      dsimp only at hn hb ⊢
      obtain ⟨a, t, hrun, hq⟩ := hm.returns hf b (by omega)
      obtain ⟨c, u, hrun', hp⟩ := (hk a t hq).returns hn (b - f.spent) (by omega)
      refine ⟨c, u, ?_, hp⟩
      rw [Exec.bind_of_ok hrun, hrun', Nat.sub_sub]
    · intro e he b hb
      dsimp only at he hb
      obtain ⟨a, t, hrun, hq⟩ := hm.returns hf b (by omega)
      obtain ⟨u, b', hrun', hr⟩ := (hk a t hq).stops e he (b - f.spent) (by omega)
      exact ⟨u, b', (Exec.bind_of_ok hrun).trans hrun', hr⟩
    · intro b hb
      dsimp only at hb
      rcases Nat.lt_or_ge b f.spent with hlt | hge
      · obtain ⟨e, t, b', hrun, hx⟩ := hm.fails b hlt
        exact ⟨e, t, b', Exec.bind_of_error hrun, hx⟩
      · obtain ⟨a, t, hrun, hq⟩ := hm.returns hf b hge
        obtain ⟨e, u, b', hrun', hx⟩ := (hk a t hq).fails (b - f.spent) (by omega)
        exact ⟨e, u, b', (Exec.bind_of_ok hrun).trans hrun', hx⟩

/-- **The loop rule**, for a body that does not change the state. -/
theorem ends_mapM {k : α → EStateM ε (Metered σ) β} {v : α → β} {eff : α → Effort ε} {l : List α}
    (h : ∀ a ∈ l, Ends X (k a) s (eff a) (fun b t => b = v a ∧ t = s) R) :
    Ends X (l.mapM k) s (all eff l) (fun bs t => bs = l.map v ∧ t = s) R := by
  induction l with
  | nil => exact ends_pure ⟨rfl, rfl⟩
  | cons a l ih =>
    rw [List.mapM_cons]
    refine (h a List.mem_cons_self).bind ?_
    rintro b t ⟨rfl, rfl⟩
    rw [← andThen_nothing (all eff l)]
    refine (ih fun a' ha' => h a' (List.mem_cons_of_mem _ ha')).bind ?_
    rintro bs t' ⟨rfl, rfl⟩
    exact ends_pure ⟨rfl, rfl⟩

end OwonVds.Budget
