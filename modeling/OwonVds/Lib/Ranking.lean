import Mathlib.Algebra.Order.BigOperators.Group.Finset
import Mathlib.Data.Prod.Lex
import Mathlib.Order.WellFounded

/-!
# Ranks

Where each step lowers a rank, every run comes to an end (`acc_of_rank`). One such rank is that of a system of parties
`0, .., n - 1`, each with a stage and a load, in which a step is of one party: it lowers the stage of the party, or
keeps it and lowers the load; the others stay where they are. The sums over all parties fall lexicographically
(`acc_of_forward`).
-/

namespace OwonVds.Ranking

variable {σ : Type*} {stage load : σ → ℕ → ℕ}

/-- From `s` to `s'`, party `c` goes forward and the others stay. -/
structure Forward (stage load : σ → ℕ → ℕ) (c : ℕ) (s s' : σ) : Prop where
  others : ∀ c', c' ≠ c → stage s' c' = stage s c' ∧ load s' c' = load s c'
  party : stage s' c < stage s c ∨ stage s' c = stage s c ∧ load s' c < load s c

def total (stage load : σ → ℕ → ℕ) (n : ℕ) (s : σ) : ℕ ×ₗ ℕ :=
  toLex (∑ c ∈ Finset.range n, stage s c, ∑ c ∈ Finset.range n, load s c)

theorem Forward.total_lt {c n : ℕ} {s s' : σ} (h : Forward stage load c s s') (hc : c < n) :
    total stage load n s' < total stage load n s := by
  have hmem : c ∈ Finset.range n := Finset.mem_range.2 hc
  rw [total, total, Prod.Lex.toLex_lt_toLex]
  have hle : ∀ {f : σ → ℕ → ℕ}, (∀ c', c' ≠ c → f s' c' = f s c') → f s' c ≤ f s c → ∀ c', f s' c' ≤ f s c' := by
    intro f ho hp c'
    by_cases hcc : c' = c
    · rw [hcc]
      exact hp
    · exact (ho c' hcc).le
  have hstage := fun c' hcc => (h.others c' hcc).1
  have hload := fun c' hcc => (h.others c' hcc).2
  rcases h.party with hs | ⟨hs, hl⟩
  · exact .inl (Finset.sum_lt_sum (fun c' _ => hle hstage hs.le c') ⟨c, hmem, hs⟩)
  · refine .inr ⟨?_, Finset.sum_lt_sum (fun c' _ => hle hload hl.le c') ⟨c, hmem, hl⟩⟩
    show ∑ c ∈ Finset.range n, stage s' c = ∑ c ∈ Finset.range n, stage s c
    refine Finset.sum_congr rfl fun c' _ => ?_
    by_cases hcc : c' = c
    · rw [hcc]
      exact hs
    · exact hstage c' hcc

/-- **Every run comes to an end**, where each step lowers a rank. -/
theorem acc_of_rank {α : Type*} [LT α] [WellFoundedLT α] (rank : σ → α) {I : σ → Prop} {r : σ → σ → Prop}
    (hr : ∀ s s', I s → r s' s → I s' ∧ rank s' < rank s) {s : σ} (hs : I s) : Acc r s := by
  induction hm : rank s using WellFoundedLT.induction generalizing s with
  | ind m ih =>
    refine Acc.intro s fun s' hs' => ?_
    obtain ⟨hI, hlt⟩ := hr s s' hs hs'
    exact ih _ (hm ▸ hlt) hI rfl

/-- Every run comes to an end, where each step brings a party forward. -/
theorem acc_of_forward {I : σ → Prop} {r : σ → σ → Prop} {n : ℕ}
    (hr : ∀ s s', I s → r s' s → I s' ∧ ∃ c < n, Forward stage load c s s') {s : σ} (hs : I s) : Acc r s := by
  refine acc_of_rank (total stage load n) (fun s s' hs h => ?_) hs
  obtain ⟨hI, c, hc, hf⟩ := hr s s' hs h
  exact ⟨hI, hf.total_lt hc⟩

end OwonVds.Ranking
