import Mathlib.Data.List.Basic

/-!
# Reading a session of messages

A reader takes one message from the front of a stream: `read s = some (v, s')`. `session read n` is `n` reads in a
row. A message with wire form `w` and value `v` is read exactly (`Exact`) when, whatever follows it, the read gives
`v` and leaves what follows; it is spoiled (`Spoils`) when no read of it gives `v`.

When every message is either, a session gives back the values, and leaves what follows the last message, if and
only if no message is spoiled (`session_iff`): the reads before the first spoiled message are exact, so the spoiled
message is read from its own first byte.
-/

namespace OwonVds.Session

variable {α β ρ : Type*}

/-- `n` reads in a row. -/
def session (read : List α → Option (β × List α)) : Nat → List α → Option (List β × List α)
  | 0, s => some ([], s)
  | n + 1, s => (read s).bind fun (v, s') => (session read n s').map fun (vs, t) => (v :: vs, t)

/-- The message `w` is read as `v`, whatever follows. -/
def Exact (read : List α → Option (β × List α)) (w : List α) (v : β) : Prop := ∀ rest, read (w ++ rest) = some (v, rest)

/-- No read of the message `w` gives `v`. -/
def Spoils (read : List α → Option (β × List α)) (w : List α) (v : β) : Prop :=
  ∀ rest v' s', read (w ++ rest) = some (v', s') → v' ≠ v

variable {read : List α → Option (β × List α)} {wire : ρ → List α} {value : ρ → β}

theorem session_succ_eq {n : Nat} {s t : List α} {v : β} {vs : List β} :
    session read (n + 1) s = some (v :: vs, t) ↔ ∃ s', read s = some (v, s') ∧ session read n s' = some (vs, t) := by
  simp only [session, Option.bind_eq_some_iff, Option.map_eq_some_iff, Prod.exists, Prod.mk.injEq, List.cons.injEq]
  constructor
  · rintro ⟨v', s', hr, vs', t', hs, ⟨rfl, rfl⟩, rfl⟩
    exact ⟨s', hr, hs⟩
  · rintro ⟨s', hr, hs⟩
    exact ⟨v, s', hr, vs, t, hs, ⟨rfl, rfl⟩, rfl⟩

/-- A session of exact messages gives the values, in order, and leaves what follows. -/
theorem session_exact (rs : List ρ) (h : ∀ r ∈ rs, Exact read (wire r) (value r)) (rest : List α) :
    session read rs.length (rs.flatMap wire ++ rest) = some (rs.map value, rest) := by
  induction rs with
  | nil => rfl
  | cons r rs ih =>
    simp only [List.length_cons, List.map_cons, List.flatMap_cons, List.append_assoc]
    rw [session_succ_eq]
    exact ⟨_, h r List.mem_cons_self _, ih fun q hq => h q (List.mem_cons_of_mem _ hq)⟩

/-- Where nothing is read from the empty stream, the sessions that read a whole stream are the same. -/
theorem session_unique (hnil : read [] = none) {m n : Nat} {s : List α} {vs ws : List β}
    (hv : session read m s = some (vs, [])) (hw : session read n s = some (ws, [])) : vs = ws := by
  induction m generalizing n s vs ws with
  | zero =>
    cases hv
    cases n with
    | zero =>
      cases hw
      rfl
    | succ n =>
      rw [session, hnil] at hw
      cases hw
  | succ m ih =>
    rw [session] at hv
    obtain ⟨⟨v, s'⟩, hr, hv⟩ := Option.bind_eq_some_iff.1 hv
    obtain ⟨⟨vs', t⟩, hs, he⟩ := Option.map_eq_some_iff.1 hv
    cases he
    cases n with
    | zero =>
      cases hw
      rw [hnil] at hr
      cases hr
    | succ n =>
      rw [session, hr, Option.bind_some] at hw
      obtain ⟨⟨ws', t'⟩, hs', he'⟩ := Option.map_eq_some_iff.1 hw
      cases he'
      rw [ih hs hs']

/-- **A session gives the values back iff no message of it is spoiled.** -/
theorem session_iff {Good : ρ → Prop} (rs : List ρ) (hgood : ∀ r ∈ rs, Good r → Exact read (wire r) (value r))
    (hbad : ∀ r ∈ rs, ¬ Good r → Spoils read (wire r) (value r)) (rest : List α) :
    session read rs.length (rs.flatMap wire ++ rest) = some (rs.map value, rest) ↔ ∀ r ∈ rs, Good r := by
  constructor
  · intro h
    induction rs with
    | nil => simp
    | cons r rs ih =>
      simp only [List.length_cons, List.map_cons, List.flatMap_cons, List.append_assoc] at h
      obtain ⟨s', hr, hs⟩ := session_succ_eq.1 h
      have hg : Good r := by
        by_contra hb
        exact hbad r List.mem_cons_self hb _ _ _ hr rfl
      -- an exact first message leaves the stream at the second
      have he := hgood r List.mem_cons_self hg (rs.flatMap wire ++ rest)
      rw [he] at hr
      cases hr
      intro q hq
      rcases List.mem_cons.1 hq with rfl | hq
      · exact hg
      · exact ih (fun q hq => hgood q (List.mem_cons_of_mem _ hq)) (fun q hq => hbad q (List.mem_cons_of_mem _ hq))
          hs q hq
  · intro h
    exact session_exact rs (fun r hr => hgood r hr (h r hr)) rest

end OwonVds.Session
