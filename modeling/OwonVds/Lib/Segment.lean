import Mathlib.Data.List.Basic

/-!
# Doubly linked lists

`Segment next prev before start l stop`: the way from `start` along `next` goes through the nodes `l` and arrives at
`stop`; the first of them has `before` as its `prev`, each other the node it was reached from. A whole list is a segment
that nothing comes before and that stops nowhere.
-/

namespace OwonVds.Linked

variable {ι : Type*} {next prev next' prev' : ι → Option ι}

def Segment (next prev : ι → Option ι) : Option ι → Option ι → List ι → Option ι → Prop
  | _, start, [], stop => start = stop
  | before, start, a :: l, stop => start = some a ∧ prev a = before ∧ Segment next prev (some a) (next a) l stop

instance decidableSegment [DecidableEq ι] : ∀ (before start : Option ι) (l : List ι) (stop : Option ι),
    Decidable (Segment next prev before start l stop)
  | _, start, [], stop => inferInstanceAs (Decidable (start = stop))
  | before, start, a :: l, stop =>
    have := decidableSegment (some a) (next a) l stop
    inferInstanceAs (Decidable (start = some a ∧ prev a = before ∧ Segment next prev (some a) (next a) l stop))

/-- The links of the nodes of a segment are all it depends on. -/
theorem Segment.congr {before start stop : Option ι} {l : List ι} (h : Segment next prev before start l stop)
    (hnext : ∀ a ∈ l, next' a = next a) (hprev : ∀ a ∈ l, prev' a = prev a) :
    Segment next' prev' before start l stop := by
  induction l generalizing before start with
  | nil => exact h
  | cons a l ih =>
    obtain ⟨hs, hp, h⟩ := h
    refine ⟨hs, (hprev a List.mem_cons_self).trans hp, ?_⟩
    rw [hnext a List.mem_cons_self]
    exact ih h (fun b hb => hnext b (List.mem_cons_of_mem _ hb)) fun b hb => hprev b (List.mem_cons_of_mem _ hb)

/-- There is one way to go. -/
theorem Segment.unique {before before' start : Option ι} {l l' : List ι} (h : Segment next prev before start l none)
    (h' : Segment next prev before' start l' none) : l = l' := by
  induction l generalizing before before' start l' with
  | nil =>
    cases l' with
    | nil => rfl
    | cons a l' =>
      have hs : start = none := h
      rw [hs] at h'
      cases h'.1
  | cons a l ih =>
    obtain ⟨hs, -, h⟩ := h
    cases l' with
    | nil =>
      have hs' : start = none := h'
      rw [hs] at hs'
      cases hs'
    | cons a' l' =>
      obtain ⟨hs', -, h'⟩ := h'
      rw [hs] at hs'
      cases hs'
      rw [ih h h']

end OwonVds.Linked
