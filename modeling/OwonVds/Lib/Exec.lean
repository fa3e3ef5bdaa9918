import Mathlib.Logic.Basic

/-!
# Programs with a state and exceptions

Inversion lemmas for `EStateM`: how a sequence and a handler end, and how a program goes on after an access to the state
(`get_bind`). With them a proof takes a program apart step by step, with no unfolding of the monad.

`Keeps f m` is the frame condition: however `m` ends, `f` of the state is what it was.
-/

namespace OwonVds.Exec

variable {ε σ α β γ : Type}

open EStateM (Result)

/-! ## Sequences -/

theorem ok_bind {m : EStateM ε σ α} {f : α → EStateM ε σ β} {s t : σ} {b : β} :
    (m >>= f) s = .ok b t ↔ ∃ a u, m s = .ok a u ∧ f a u = .ok b t := by
  show EStateM.bind m f s = _ ↔ _
  unfold EStateM.bind
  cases m s with
  | ok a u =>
    constructor
    · intro h; exact ⟨a, u, rfl, h⟩
    · rintro ⟨_, _, h, h'⟩; cases h; exact h'
  | error e u => simp

theorem error_bind {m : EStateM ε σ α} {f : α → EStateM ε σ β} {s t : σ} {e : ε} :
    (m >>= f) s = .error e t ↔ m s = .error e t ∨ ∃ a u, m s = .ok a u ∧ f a u = .error e t := by
  show EStateM.bind m f s = _ ↔ _
  unfold EStateM.bind
  cases m s with
  | ok a u =>
    constructor
    · intro h; exact Or.inr ⟨a, u, rfl, h⟩
    · rintro (h | ⟨_, _, h, h'⟩)
      · cases h
      · cases h; exact h'
  | error e u => simp

/-- A sequence after a first program that ends. -/
theorem bind_of_ok {m : EStateM ε σ α} {f : α → EStateM ε σ β} {s t : σ} {a : α} (h : m s = .ok a t) :
    (m >>= f) s = f a t := by
  show EStateM.bind m f s = _
  unfold EStateM.bind
  rw [h]

/-- A sequence after a first program that throws. -/
theorem bind_of_error {m : EStateM ε σ α} {f : α → EStateM ε σ β} {s t : σ} {e : ε} (h : m s = .error e t) :
    (m >>= f) s = .error e t := by
  show EStateM.bind m f s = _
  unfold EStateM.bind
  rw [h]

/-! ## Single programs -/

@[simp] theorem pure_run (a : α) (s : σ) : (pure a : EStateM ε σ α) s = .ok a s := rfl

@[simp] theorem modify_run (f : σ → σ) (s : σ) : (modify f : EStateM ε σ PUnit) s = .ok ⟨⟩ (f s) := rfl

/-! ## Accesses to the state, and what follows them -/

theorem get_bind (k : σ → EStateM ε σ β) (s : σ) : (get >>= k) s = k s s := rfl

theorem set_bind (t : σ) (k : PUnit → EStateM ε σ β) (s : σ) : (set t >>= k) s = k ⟨⟩ t := rfl

theorem modify_bind (f : σ → σ) (k : PUnit → EStateM ε σ β) (s : σ) : (modify f >>= k) s = k ⟨⟩ (f s) := rfl

/-! ## Handlers -/

/-- A handled program keeps the state of the failure. -/
theorem tryCatch_run (m : EStateM ε σ α) (h : ε → EStateM ε σ α) (s : σ) :
    (tryCatch m h) s = match m s with
      | .ok a t => .ok a t
      | .error e t => h e t := by
  show EStateM.tryCatch m h s = _
  unfold EStateM.tryCatch
  cases m s <;> rfl

/-! ## Frames -/

/-- The state a program ends in, with a result or with an exception. -/
def final : Result ε σ α → σ
  | .ok _ t => t
  | .error _ t => t

/-- However the program ends, `f` of the state is unchanged. -/
def Keeps (f : σ → γ) (m : EStateM ε σ α) : Prop := ∀ s, f (final (m s)) = f s

variable {f : σ → γ} {m : EStateM ε σ α}

theorem Keeps.ok (h : Keeps f m) {s t : σ} {a : α} (hm : m s = .ok a t) : f t = f s := by
  have := h s
  rwa [hm] at this

theorem Keeps.error (h : Keeps f m) {s t : σ} {e : ε} (hm : m s = .error e t) : f t = f s := by
  have := h s
  rwa [hm] at this

theorem keeps_pure (a : α) : Keeps f (pure a : EStateM ε σ α) := fun _ => rfl

theorem keeps_throw (e : ε) : Keeps f (throw e : EStateM ε σ α) := fun _ => rfl

theorem keeps_get : Keeps f (get : EStateM ε σ σ) := fun _ => rfl

theorem keeps_bind {k : α → EStateM ε σ β} (hm : Keeps f m) (hk : ∀ a, Keeps f (k a)) : Keeps f (m >>= k) := by
  intro s
  cases h : m s with
  | ok a t =>
    rw [bind_of_ok h]
    exact (hk a t).trans (hm.ok h)
  | error e t =>
    rw [bind_of_error h]
    exact hm.error h

theorem keeps_tryCatch {k : ε → EStateM ε σ α} (hm : Keeps f m) (hk : ∀ e, Keeps f (k e)) :
    Keeps f (tryCatch m k) := by
  intro s
  rw [tryCatch_run]
  cases h : m s with
  | ok a t => exact hm.ok h
  | error e t => exact (hk e t).trans (hm.error h)

theorem keeps_ite {p : Prop} [Decidable p] {n : EStateM ε σ α} (hm : Keeps f m) (hn : Keeps f n) :
    Keeps f (if p then m else n) := by
  split
  · exact hm
  · exact hn

end OwonVds.Exec
