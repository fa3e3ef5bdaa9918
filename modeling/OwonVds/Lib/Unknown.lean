import Mathlib.Data.List.Basic
import Mathlib.Logic.Nontrivial.Defs

/-!
# Values that are not known

A program that only moves values does the same whatever they are: it commutes with every map of them. So it can be run
on values of which some are unknown, each with a name, and `fill` tells afterwards what comes out for any values of the
unknown ones. What comes out is the same for all of them if and only if nothing unknown is in it (`map_fill_iff`).
-/

namespace OwonVds.Unknown

variable {α ν β γ : Type*}

/-! ## Filling in -/

/-- The value, when the unknown ones are given. -/
def fill (g : ν → α) : α ⊕ ν → α := Sum.elim id g

/-- The value is known. -/
def Known (x : α ⊕ ν) : Prop := x.isLeft = true

@[simp] theorem known_inl (a : α) : Known (.inl a : α ⊕ ν) := rfl

@[simp] theorem not_known_inr (n : ν) : ¬ Known (.inr n : α ⊕ ν) := fun h => by cases h

theorem fill_comp_inl (g : ν → α) : fill g ∘ Sum.inl = id := rfl

theorem fill_comp_inr (g : ν → α) : fill g ∘ Sum.inr = g := rfl

theorem fill_eq_of_known {x : α ⊕ ν} (h : Known x) (g g' : ν → α) : fill g x = fill g' x := by
  cases x with
  | inl a => rfl
  | inr n => exact absurd h (not_known_inr n)

theorem known_of_fill_eq [Nontrivial α] {x : α ⊕ ν} (h : ∀ g g' : ν → α, fill g x = fill g' x) : Known x := by
  cases x with
  | inl a => exact known_inl a
  | inr n =>
    obtain ⟨a, b, hab⟩ := exists_pair_ne α
    exact absurd (h (fun _ => a) fun _ => b) hab

/-- A list is the same for all values of the unknown ones iff there are none in it. -/
theorem map_fill_iff [Nontrivial α] {l : List (α ⊕ ν)} :
    (∀ g g' : ν → α, l.map (fill g) = l.map (fill g')) ↔ ∀ x ∈ l, Known x := by
  constructor
  · intro h x hx
    exact known_of_fill_eq fun g g' => List.map_inj_left.1 (h g g') x hx
  · intro h g g'
    exact List.map_congr_left fun x hx => fill_eq_of_known (h x hx) g g'

/-! ## Overwriting -/

/-- The list with its first elements replaced. -/
def overwrite (data l : List β) : List β := data ++ l.drop data.length

theorem map_overwrite (f : β → γ) (data l : List β) :
    (overwrite data l).map f = overwrite (data.map f) (l.map f) := by
  simp [overwrite, List.map_drop]

theorem length_overwrite {data l : List β} (h : data.length ≤ l.length) : (overwrite data l).length = l.length := by
  simp only [overwrite, List.length_append, List.length_drop]
  omega

theorem getElem?_overwrite (data l : List β) (i : Nat) :
    (overwrite data l)[i]? = if i < data.length then data[i]? else l[i]? := by
  unfold overwrite
  split_ifs with h
  · exact List.getElem?_append_left h
  · rw [List.getElem?_append_right (by omega), List.getElem?_drop]
    congr 1
    omega

/-! ## Where unknown values are -/

/-- There is an unknown value at that place. -/
def UnknownAt (l : List (α ⊕ ν)) (i : Nat) : Prop := ∃ x, l[i]? = some x ∧ ¬ Known x

variable {l : List (α ⊕ ν)} {i : Nat}

theorem forall_known_iff : (∀ x ∈ l, Known x) ↔ ∀ i, ¬ UnknownAt l i := by
  constructor
  · rintro h i ⟨x, hx, hn⟩
    exact hn (h x (List.mem_of_getElem? hx))
  · intro h x hx
    obtain ⟨i, hi⟩ := List.mem_iff_getElem?.1 hx
    by_contra hn
    exact h i ⟨x, hi, hn⟩

theorem not_unknownAt_map_inl (data : List α) (i : Nat) : ¬ UnknownAt (data.map (Sum.inl : α → α ⊕ ν)) i := by
  revert i
  rw [← forall_known_iff]
  simp

theorem unknownAt_overwrite (data : List (α ⊕ ν)) :
    UnknownAt (overwrite data l) i ↔ if i < data.length then UnknownAt data i else UnknownAt l i := by
  unfold UnknownAt
  rw [getElem?_overwrite]
  split_ifs <;> exact Iff.rfl

theorem unknownAt_overwrite_inl (data : List α) :
    UnknownAt (overwrite (data.map .inl) l) i ↔ data.length ≤ i ∧ UnknownAt l i := by
  rw [unknownAt_overwrite, List.length_map]
  split_ifs with h
  · exact iff_of_false (not_unknownAt_map_inl data i) fun hu => absurd h (Nat.not_lt.2 hu.1)
  · exact (and_iff_right (Nat.not_lt.1 h)).symm

theorem unknownAt_take {n : Nat} : UnknownAt (l.take n) i ↔ i < n ∧ UnknownAt l i := by
  unfold UnknownAt
  rw [List.getElem?_take]
  split_ifs with h
  · exact (and_iff_right h).symm
  · simp [h]

theorem unknownAt_set (a : α) (j : Nat) : UnknownAt (l.set j (.inl a)) i ↔ j ≠ i ∧ UnknownAt l i := by
  unfold UnknownAt
  by_cases h : j = i
  · subst h
    simp [List.getElem?_set]
  · rw [List.getElem?_set_ne h]
    exact (and_iff_right h).symm

end OwonVds.Unknown
