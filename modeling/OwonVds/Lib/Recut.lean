import Mathlib.Data.List.Basic
import Mathlib.Data.List.Induction
import Mathlib.Data.List.Sort

/-!
# One text cut in two ways

A text is delivered in parts `xs`; every part is split at the separator `sep` on its own and every piece is read
through `norm`, which does not see blanks at the two ends of a piece (`Neglects`). `pieces` is everything read, in
order. Cutting the same text elsewhere, into parts `ys`, gives the same pieces when part by part the two cuts carry
the same number of characters that are neither blank nor a separator (`pieces_eq_of_load`), and only then, if `norm`
keeps those characters (`load_eq_of_pieces`).

The first direction moves the blanks and separators between two cuts from one part to the next. The second counts:
ending every part with a separator puts a mark at the number of characters before it, so the marks of the two
endings, which agree, are those of the text together with the loads up to each cut.
-/

namespace OwonVds.Recut

open List

variable {α β : Type*} [DecidableEq α]

/-- The number of characters of `x` that are neither blank nor the separator. -/
def load (blank : α → Bool) (sep : α) (x : List α) : Nat := x.countP fun a => !blank a && decide (a ≠ sep)

/-- The pieces of the parts, in order, as `norm` reads them. -/
def pieces (sep : α) (norm : List α → β) (xs : List (List α)) : List β :=
  xs.flatMap fun x => (x.splitOn sep).map norm

/-- `norm` reads a piece without the blanks at its ends, and the separator is not blank. -/
structure Neglects (blank : α → Bool) (sep : α) (norm : List α → β) : Prop where
  sep_not_blank : blank sep = false
  left : ∀ b p, (∀ a ∈ b, blank a = true) → norm (b ++ p) = norm p
  right : ∀ b p, (∀ a ∈ b, blank a = true) → norm (p ++ b) = norm p

variable {blank : α → Bool} {sep : α} {norm : List α → β}

@[simp] theorem pieces_nil : pieces sep norm [] = [] := rfl

@[simp] theorem pieces_cons (x : List α) (xs : List (List α)) :
    pieces sep norm (x :: xs) = (x.splitOn sep).map norm ++ pieces sep norm xs := by simp [pieces]

theorem load_append (x y : List α) : load blank sep (x ++ y) = load blank sep x + load blank sep y := by
  simp [load]

/-! ## Moving blanks and separators -/

/-- What is appended to a text without a separator goes to its last piece. -/
theorem splitOn_append_last (x : List α) : ∃ ps l, ∀ b, sep ∉ b → (x ++ b).splitOn sep = ps ++ [l ++ b] := by
  induction x with
  | nil => exact ⟨[], [], fun b hb => by simpa using splitOn_eq_singleton hb⟩
  | cons c x ih =>
    obtain ⟨ps, l, h⟩ := ih
    by_cases hc : c = sep
    · exact ⟨[] :: ps, l, fun b hb => by simp [splitOn_cons_eq_if_modifyHead, hc, h b hb]⟩
    · cases ps with
      | nil => exact ⟨[], c :: l, fun b hb => by simp [splitOn_cons_eq_if_modifyHead, hc, h b hb]⟩
      | cons p ps => exact ⟨(c :: p) :: ps, l, fun b hb => by simp [splitOn_cons_eq_if_modifyHead, hc, h b hb]⟩

/-- No piece contains the separator. -/
theorem notMem_of_mem_splitOn {x p : List α} (h : p ∈ x.splitOn sep) : sep ∉ p := by
  induction x generalizing p with
  | nil =>
    have hp : p = [] := by simpa using h
    simp [hp]
  | cons a x ih =>
    obtain ⟨q, qs, hq⟩ := exists_cons_of_ne_nil (splitOn_ne_nil sep x)
    rw [hq] at ih
    by_cases ha : a = sep
    · simp only [splitOn_cons_eq_if_modifyHead, ha, beq_self_eq_true, if_true, hq, mem_cons] at h
      rcases h with rfl | h
      · simp
      · exact ih (mem_cons.2 h)
    · simp only [splitOn_cons_eq_if_modifyHead, beq_iff_eq, ha, if_false, hq, modifyHead_cons, mem_cons] at h
      rcases h with rfl | h
      · have := ih mem_cons_self
        simp [Ne.symm ha, this]
      · exact ih (mem_cons_of_mem q h)

variable (hN : Neglects blank sep norm)
include hN

omit [DecidableEq α] in
theorem Neglects.sep_notMem {b : List α} (hb : ∀ a ∈ b, blank a = true) : sep ∉ b := by
  intro h
  have := hb sep h
  rw [hN.sep_not_blank] at this
  cases this

/-- Blanks at the end of a part are not seen. -/
theorem Neglects.append_blank {b : List α} (hb : ∀ a ∈ b, blank a = true) (x : List α) :
    ((x ++ b).splitOn sep).map norm = (x.splitOn sep).map norm := by
  obtain ⟨ps, l, h⟩ := @splitOn_append_last _ _ sep x
  have h0 := h [] (by simp)
  rw [List.append_nil, List.append_nil] at h0
  rw [h b (hN.sep_notMem hb), h0]
  simp [hN.right b l hb]

/-- Blanks and separators in front of a part are so many empty pieces. -/
theorem Neglects.prepend (d x : List α) (hd : load blank sep d = 0) :
    ((d ++ x).splitOn sep).map norm = replicate (d.count sep) (norm []) ++ (x.splitOn sep).map norm := by
  induction d with
  | nil => simp
  | cons a d ih =>
    simp only [load, countP_cons] at hd
    have hd' := ih (by simp only [load]; omega)
    by_cases ha : a = sep
    · simp [splitOn_cons_eq_if_modifyHead, ha, replicate_succ, hd']
    · have hb : blank a = true := by
        by_contra hb
        simp [ha, hb] at hd
      obtain ⟨p, ps, hp⟩ := exists_cons_of_ne_nil (splitOn_ne_nil sep (d ++ x))
      rw [hp, map_cons] at hd'
      have hn : norm (a :: p) = norm p := hN.left [a] p (by simpa using hb)
      simp [splitOn_cons_eq_if_modifyHead, ha, hp, hn, ← hd']

/-- Blanks and separators at the end of a part are so many empty pieces. -/
theorem Neglects.append (x : List α) : ∀ d : List α, load blank sep d = 0 →
    ((x ++ d).splitOn sep).map norm = (x.splitOn sep).map norm ++ replicate (d.count sep) (norm []) := by
  intro d
  induction d using List.reverseRecOn with
  | nil => simp
  | append_singleton d a ih =>
    intro hd
    rw [load_append] at hd
    have hd' := ih (by omega)
    by_cases ha : a = sep
    · subst ha
      have hs := splitOn_append_cons_self (a := a) (x ++ d) []
      rw [← List.append_assoc, hs]
      simp [hd', replicate_succ']
    · have hb : blank a = true := by
        by_contra hb
        simp [load, ha, hb] at hd
      rw [← List.append_assoc, hN.append_blank (b := [a]) (by simpa using hb), hd']
      simp [count_append, ha]

/-- **Two cuts whose parts carry as much, part by part, give the same pieces.** -/
theorem pieces_eq_of_load (n : Nat) : ∀ {xs ys : List (List α)}, xs.length = n → xs.flatten = ys.flatten →
    xs.map (load blank sep) = ys.map (load blank sep) → pieces sep norm xs = pieces sep norm ys := by
  -- one part of each cut at a time: the longer first part ends with blanks and separators of the other's next part
  have move : ∀ (x d : List α) (xs ys : List (List α)), load blank sep d = 0 → xs.length = ys.length →
      xs.flatten = d ++ ys.flatten → (∀ zs : List (List α), xs.flatten = zs.flatten →
        xs.map (load blank sep) = zs.map (load blank sep) → pieces sep norm xs = pieces sep norm zs) →
      xs.map (load blank sep) = ys.map (load blank sep) →
      pieces sep norm (x :: xs) = pieces sep norm ((x ++ d) :: ys) := by
    intro x d xs ys hd hl hf ih hw
    cases ys with
    | nil =>
      have hx : xs = [] := by simpa using hl
      subst hx
      have hd' : d = [] := by simpa using hf.symm
      simp [hd']
    | cons z zs =>
      have hz := ih ((d ++ z) :: zs) (by simp [hf]) (by simpa [load_append, hd] using hw)
      rw [pieces_cons, hz]
      simp only [pieces_cons, hN.prepend d z hd, hN.append x d hd, List.append_assoc]
  induction n with
  | zero =>
    intro xs ys hl _ hw
    have hx : xs = [] := List.eq_nil_of_length_eq_zero hl
    subst hx
    have hy : ys = [] := by simpa using hw.symm
    rw [hy]
  | succ n ih =>
    intro xs ys hl hf hw
    cases xs with
    | nil => simp at hl
    | cons x xs =>
      cases ys with
      | nil => simp at hw
      | cons y ys =>
        simp only [length_cons, Nat.add_right_cancel_iff] at hl
        simp only [map_cons, cons.injEq] at hw
        have hlen : xs.length = ys.length := by simpa using congrArg List.length hw.2
        simp only [flatten_cons] at hf
        rcases append_eq_append_iff.1 hf with ⟨d, hy, hx⟩ | ⟨d, hx, hy⟩
        · have hd : load blank sep d = 0 := by rw [hy, load_append] at hw; omega
          rw [hy]
          exact move x d xs ys hd hlen hx (fun zs hz hzw => ih hl hz hzw) hw.2
        · have hd : load blank sep d = 0 := by rw [hx, load_append] at hw; omega
          rw [hx]
          exact (move y d ys xs hd hlen.symm hy (fun zs hz hzw => ih (hlen ▸ hl) hz hzw) hw.2.symm).symm

omit hN

/-! ## Counting marks -/

/-- The positions of the separators, each as the number of other characters before it. -/
def marks (sep : α) : List α → Nat → List Nat
  | [], _ => []
  | a :: u, n => if a = sep then n :: marks sep u n else marks sep u (n + 1)

/-- The loads up to the end of each part. -/
def bounds (sep : α) : List (List α) → Nat → List Nat
  | [], _ => []
  | x :: xs, n => (n + load (fun _ => false) sep x) :: bounds sep xs (n + load (fun _ => false) sep x)

theorem marks_append (u v : List α) (n : Nat) :
    marks sep (u ++ v) n = marks sep u n ++ marks sep v (n + load (fun _ => false) sep u) := by
  induction u generalizing n with
  | nil => simp [marks, load]
  | cons a u ih =>
    by_cases ha : a = sep
    · simp [marks, load, ha, ih]
    · have hl : load (fun _ => false) sep (a :: u) = load (fun _ => false) sep u + 1 := by simp [load, ha]
      simp only [cons_append, marks, ha, if_false, ih, hl]
      congr 2
      omega

/-- Ending every part with a separator adds a mark at each end of a part. -/
theorem marks_ended (xs : List (List α)) (n : Nat) :
    marks sep (xs.flatMap (· ++ [sep])) n ~ marks sep xs.flatten n ++ bounds sep xs n := by
  induction xs generalizing n with
  | nil => simp [marks, bounds]
  | cons x xs ih =>
    simp only [flatMap_cons, flatten_cons, marks_append, bounds, List.append_assoc]
    refine Perm.append_left _ ?_
    simp only [marks, if_true, cons_append, nil_append]
    have hl : load (fun _ => false) sep [sep] = 0 := by simp [load]
    rw [hl, Nat.add_zero]
    exact ((ih _).cons _).trans perm_middle.symm

theorem bounds_ge (xs : List (List α)) (n : Nat) : ∀ b ∈ bounds sep xs n, n ≤ b := by
  induction xs generalizing n with
  | nil => simp [bounds]
  | cons x xs ih =>
    intro b hb
    rcases mem_cons.1 hb with rfl | hb
    · omega
    · have := ih _ b hb; omega

theorem bounds_sorted (xs : List (List α)) (n : Nat) : (bounds sep xs n).Pairwise (· ≤ ·) := by
  induction xs generalizing n with
  | nil => simp [bounds]
  | cons x xs ih => exact pairwise_cons.2 ⟨bounds_ge xs _, ih _⟩

theorem bounds_inj : ∀ {xs ys : List (List α)} {n : Nat}, bounds sep xs n = bounds sep ys n →
    xs.map (load (fun _ => false) sep) = ys.map (load (fun _ => false) sep)
  | [], [], _, _ => rfl
  | [], _ :: _, _, h => by simp [bounds] at h
  | _ :: _, [], _, h => by simp [bounds] at h
  | x :: xs, y :: ys, n, h => by
    simp only [bounds, cons.injEq, Nat.add_left_cancel_iff] at h
    obtain ⟨h1, h2⟩ := h
    rw [h1] at h2
    simp [h1, bounds_inj h2]

/-- The parts of one text are found, up to their loads, from the text with every part ended by a separator. -/
theorem load_eq_of_ended {xs ys : List (List α)} (hf : xs.flatten = ys.flatten)
    (h : xs.flatMap (· ++ [sep]) = ys.flatMap (· ++ [sep])) :
    xs.map (load (fun _ => false) sep) = ys.map (load (fun _ => false) sep) := by
  have hp : marks sep xs.flatten 0 ++ bounds sep xs 0 ~ marks sep xs.flatten 0 ++ bounds sep ys 0 := by
    have hx := @marks_ended _ _ sep xs 0
    have hy := @marks_ended _ _ sep ys 0
    rw [h] at hx
    rw [← hf] at hy
    exact hx.symm.trans hy
  exact bounds_inj ((perm_append_left_iff _).1 hp |>.eq_of_pairwise (fun _ _ _ _ => Nat.le_antisymm)
    (bounds_sorted xs 0) (bounds_sorted ys 0))

/-! ## The pieces give the parts -/

/-- The characters that are not blank. -/
def solid (blank : α → Bool) (x : List α) : List α := x.filter fun a => !blank a

/-- The pieces of a text, each ended by the separator, are the text ended by it. -/
theorem splitOn_ended (x : List α) : (x.splitOn sep).flatMap (· ++ [sep]) = x ++ [sep] := by
  induction x with
  | nil => simp
  | cons a x ih =>
    obtain ⟨p, ps, hp⟩ := exists_cons_of_ne_nil (splitOn_ne_nil sep x)
    rw [hp] at ih
    by_cases ha : a = sep
    · simpa [splitOn_cons_eq_if_modifyHead, ha, hp] using ih
    · simpa [splitOn_cons_eq_if_modifyHead, ha, hp] using ih

theorem splitOn_solid (hs : blank sep = false) (x : List α) :
    (solid blank x).splitOn sep = (x.splitOn sep).map (solid blank) := by
  induction x with
  | nil => simp [solid]
  | cons a x ih =>
    obtain ⟨p, ps, hp⟩ := exists_cons_of_ne_nil (splitOn_ne_nil sep x)
    by_cases ha : a = sep
    · subst ha
      have : solid blank (a :: x) = a :: solid blank x := by simp [solid, hs]
      rw [this]
      simp only [splitOn_cons_eq_if_modifyHead, beq_self_eq_true, if_true, map_cons, ih]
      simp [solid]
    · cases hb : blank a with
      | true =>
        have : solid blank (a :: x) = solid blank x := by simp [solid, hb]
        rw [this, ih]
        simp [splitOn_cons_eq_if_modifyHead, ha, hp, solid, hb]
      | false =>
        have : ∀ y, solid blank (a :: y) = a :: solid blank y := fun y => by simp [solid, hb]
        rw [this]
        simp [splitOn_cons_eq_if_modifyHead, ha, ih, hp, this]

theorem load_solid (x : List α) : load (fun _ => false) sep (solid blank x) = load blank sep x := by
  simp [load, solid, countP_filter, Bool.and_comm]

/-- **Two cuts that give the same pieces carry as much, part by part**, when the pieces keep what is not blank. -/
theorem load_eq_of_pieces (hs : blank sep = false)
    (hk : ∀ p q, norm p = norm q → solid blank p = solid blank q) {xs ys : List (List α)}
    (hf : xs.flatten = ys.flatten) (h : pieces sep norm xs = pieces sep norm ys) :
    xs.map (load blank sep) = ys.map (load blank sep) := by
  -- the ended solid text is a function of the pieces
  have ended : ∀ zs : List (List α), (zs.map (solid blank)).flatMap (· ++ [sep]) =
      ((zs.flatMap fun z => z.splitOn sep).map (solid blank)).flatMap (· ++ [sep]) := by
    intro zs
    induction zs with
    | nil => rfl
    | cons z zs ih =>
      simp only [map_cons, flatMap_cons, map_append, flatMap_append, ih]
      rw [← splitOn_solid hs, splitOn_ended]
  have hsolid : (xs.flatMap fun x => x.splitOn sep).map (solid blank) =
      (ys.flatMap fun y => y.splitOn sep).map (solid blank) := by
    have hm : (xs.flatMap fun x => x.splitOn sep).map norm = (ys.flatMap fun y => y.splitOn sep).map norm := by
      simpa [pieces, map_flatMap] using h
    refine List.ext_getElem (by simpa using congrArg List.length hm) fun i h1 h2 => ?_
    have := List.getElem_of_eq hm (by simpa using h1)
    simp only [getElem_map] at this ⊢
    exact hk _ _ this
  have hfl : ∀ zs : List (List α), (zs.map (solid blank)).flatten = solid blank zs.flatten := by
    intro zs
    simp only [solid, filter_flatten]
    rfl
  have := @load_eq_of_ended _ _ sep (xs.map (solid blank)) (ys.map (solid blank))
    (by rw [hfl, hfl, hf])
    (by rw [ended xs, ended ys, hsolid])
  simpa [load_solid, Function.comp_def] using this

end OwonVds.Recut
