import OwonVds.Scpi.Link

/-!
# A link that is out of step

A call that gives up after it has written leaves its reply in the stream, and no later call takes notice of it. `lag`
counts the lines that calls have written and not read. It never falls, and it is the distance between the line that a
call writes and the line whose reply it returns: once one call has left something behind, every later call that returns
has the reply to a line of an earlier call (`returned_lag`).
-/

namespace OwonVds.Scpi

open OwonVds.Trans

/-- The lines that calls have written and not read. -/
def lag (cs : List Call) : Nat := linesOf cs - readsOf cs

/-- The line with that number is one of the call. -/
def Call.Wrote (c : Call) (k : Nat) : Prop := ∃ first, c.first = some first ∧ first ≤ k ∧ k < first + c.lines

variable {cs : List Call} {k : Nat}

theorem readsOf_le (h : ∀ c ∈ cs, c.reads ≤ c.lines) : readsOf cs ≤ linesOf cs := List.sum_le_sum h

theorem lag_eq_zero_iff (h : ∀ c ∈ cs, c.reads ≤ c.lines) : lag cs = 0 ↔ ∀ c ∈ cs, c.Settled := by
  have hle := readsOf_le h
  rw [← reads_eq_lines_iff h]
  unfold lag
  omega

theorem lines_eq_zero {c : Call} (h : c.first = none) : c.lines = 0 := by
  unfold Call.lines
  rw [h]
  rfl

/-- Every line is one of a call. -/
theorem exists_wrote (h : EachAfter Call.Follows cs) (hk : k < linesOf cs) : ∃ d ∈ cs, d.Wrote k := by
  induction cs using List.reverseRecOn with
  | nil => exact absurd hk (Nat.not_lt_zero k)
  | append_singleton cs c ih =>
    obtain ⟨hcs, hc⟩ := eachAfter_concat.1 h
    rw [linesOf_concat] at hk
    by_cases hlt : k < linesOf cs
    · obtain ⟨d, hd, hwrote⟩ := ih hcs hlt
      exact ⟨d, List.mem_append_left _ hd, hwrote⟩
    · refine ⟨c, List.mem_append_right _ List.mem_cons_self, ?_⟩
      cases hfirst : c.first with
      | none =>
        rw [lines_eq_zero hfirst] at hk
        exact absurd hk hlt
      | some first =>
        have heq : first = linesOf cs := hc.1 first hfirst
        exact ⟨first, hfirst, by omega, by omega⟩

/-- A line of a call is one of all lines. -/
theorem lt_linesOf (h : EachAfter Call.Follows cs) {d : Call} (hd : d ∈ cs) (hk : d.Wrote k) : k < linesOf cs := by
  obtain ⟨pre, post, hcs⟩ := List.append_of_mem hd
  obtain ⟨first, hfirst, -, hlt⟩ := hk
  have heq : first = linesOf pre := (h pre d post hcs).1 first hfirst
  have hsum : linesOf cs = linesOf pre + (d.lines + linesOf post) := by
    rw [hcs]
    simp [linesOf]
  omega

/-- **What a call returns**, in every run: the reply to the line that stands as many lines before its own as the calls
before it have left behind. That is a line of one of these calls if and only if one of them left something behind. -/
theorem returned_lag {es : List Event} {s : Link} (h : run linkStep Link.new es = some s) {pre post : List Call}
    {c : Call} (hcalls : s.calls = pre ++ c :: post) {v : Value} (hv : c.outcome = .returned k v) :
    c.first = some (k + lag pre) ∧ (∃ r, s.replies[k]? = some r ∧ readOk (r ++ [lf]) = some (v, [])) ∧
      ((∃ d ∈ pre, d.Wrote k) ↔ ∃ d ∈ pre, ¬ d.Settled) := by
  have hs := run_inv_new h
  have hle : ∀ d ∈ pre, d.reads ≤ d.lines := fun d hd => hs.le d (by rw [hcalls]; simp [hd])
  have hpre : EachAfter Call.Follows pre := eachAfter_left (hcalls ▸ hs.follows)
  have hfollows := hs.follows pre c post hcalls
  obtain ⟨hsome, hk⟩ := hfollows.2 k v hv
  obtain ⟨first, hfirst⟩ := Option.isSome_iff_exists.1 hsome
  have heq := hfollows.1 first hfirst
  have hreads := readsOf_le hle
  refine ⟨?_, hs.valued c (by rw [hcalls]; simp) k v hv, ?_⟩
  · rw [hfirst, heq, hk]
    unfold lag
    congr 1
    omega
  · have hbehind : (∃ d ∈ pre, ¬ d.Settled) ↔ k < linesOf pre := by
      have hzero := lag_eq_zero_iff hle
      have hnot : (∃ d ∈ pre, ¬ d.Settled) ↔ ¬ lag pre = 0 := by
        rw [hzero]
        simp
      rw [hnot, hk]
      unfold lag
      omega
    rw [hbehind]
    exact ⟨fun ⟨d, hd, hwrote⟩ => lt_linesOf hpre hd hwrote, exists_wrote hpre⟩

/-- After the late reply the next call is one behind, too. -/
def stillLate : List Event :=
  lateReply ++ [.call "*IDN?".toList, .write, .answer (encode "RUN".toList), .arrive 4, .drained, .read]

theorem returned_lag_stillLate : ∃ s c, run linkStep Link.new stillLate = some s ∧ s.calls.getLast? = some c ∧
    c.first = some 2 ∧ (∃ r, s.replies[1]? = some r ∧ readOk (r ++ [lf]) = some (.text "RUN".toList, [])) ∧
    ∃ d ∈ s.calls.dropLast, d.Wrote 1 := by
  obtain ⟨s, hs, hcalls⟩ := Option.map_eq_some_iff.1
    (by decide +kernel : (run linkStep Link.new stillLate).map Link.calls =
      some ([⟨"*IDN?".toList, some 0, .timedOut⟩, ⟨"*RUNStop?".toList, some 1, .returned 0 (.text "OWON".toList)⟩] ++
        ⟨"*IDN?".toList, some 2, .returned 1 (.text "RUN".toList)⟩ :: []))
  obtain ⟨-, hvalue, howner⟩ := returned_lag hs hcalls rfl
  refine ⟨s, _, hs, by rw [hcalls]; rfl, rfl, hvalue, ?_⟩
  rw [hcalls]
  refine howner.2 ⟨_, List.mem_cons_self, ?_⟩
  rintro (h | ⟨-, h⟩)
  · cases h
  · exact h rfl

end OwonVds.Scpi
