import Mathlib.Data.List.Basic

/-!
# Runs of a partial step function

A step `step : σ → ε → Option σ` is undefined where an event is not enabled. `run step` takes a list of events; a
property kept by one step is kept by every run (`run_inv`), also when only the steps that meet a side condition keep
it (`run_inv_along`), and a run splits at any of its events (`run_append`).

`Always G` says that all states of a run are good; where a step keeps that exactly when it meets a condition, it is
that all steps meet it (`always_iff_along`).

What the steps let an observer see is collected by `trace`; a record that every step extends by what it shows is the
trace of the run (`run_trace`).

`EachAfter Q h` says of a history `h` that every entry `o` of it is in the relation `Q` to the entries before it; a
history that grows at the end is checked entry by entry (`eachAfter_concat`).
-/

namespace OwonVds.Trans

variable {σ ε ο : Type*}

/-! ## Runs -/

/-- The state after the events, if each is enabled in turn. -/
def run (step : σ → ε → Option σ) : σ → List ε → Option σ
  | s, [] => some s
  | s, e :: es => (step s e).bind fun s' => run step s' es

/-- Every step the events take satisfies `P` in the state before it. -/
def Along (P : σ → ε → Prop) (step : σ → ε → Option σ) : σ → List ε → Prop
  | _, [] => True
  | s, e :: es => P s e ∧ ∀ s', step s e = some s' → Along P step s' es

variable {step : σ → ε → Option σ}

@[simp] theorem run_nil (s : σ) : run step s [] = some s := rfl

theorem run_cons_eq {s s' : σ} {e : ε} {es : List ε} :
    run step s (e :: es) = some s' ↔ ∃ m, step s e = some m ∧ run step m es = some s' := by
  simp [run, Option.bind_eq_some_iff]

theorem run_append {s s' : σ} {es fs : List ε} :
    run step s (es ++ fs) = some s' ↔ ∃ m, run step s es = some m ∧ run step m fs = some s' := by
  induction es generalizing s with
  | nil => simp
  | cons e es ih =>
    simp only [List.cons_append, run_cons_eq, ih]
    constructor
    · rintro ⟨m, hm, n, hn, hs⟩
      exact ⟨n, ⟨m, hm, hn⟩, hs⟩
    · rintro ⟨n, ⟨m, hm, hn⟩, hs⟩
      exact ⟨m, hm, n, hn, hs⟩

/-- A single event is a step. -/
theorem run_singleton {s s' : σ} {e : ε} : run step s [e] = some s' ↔ step s e = some s' := by
  simp [run_cons_eq]

/-- **The invariant rule**, for steps that meet a side condition. -/
theorem run_inv_along {I : σ → Prop} {P : σ → ε → Prop}
    (hstep : ∀ s e s', I s → P s e → step s e = some s' → I s') {s s' : σ} {es : List ε}
    (hP : Along P step s es) (h : run step s es = some s') (hs : I s) : I s' := by
  induction es generalizing s with
  | nil => cases h; exact hs
  | cons e es ih =>
    obtain ⟨m, hm, hr⟩ := run_cons_eq.1 h
    exact ih (hP.2 m hm) hr (hstep s e m hs hP.1 hm)

/-- A condition on the events alone. -/
theorem along_of_forall {P : ε → Prop} (s : σ) {es : List ε} (h : ∀ e ∈ es, P e) :
    Along (fun _ e => P e) step s es := by
  induction es generalizing s with
  | nil => trivial
  | cons e es ih => exact ⟨h e List.mem_cons_self, fun m _ => ih m fun e he => h e (List.mem_cons_of_mem _ he)⟩

/-- A condition that the states before the events meet. -/
theorem along_of_take {P : σ → ε → Prop} {s : σ} {es : List ε}
    (h : ∀ i (hi : i < es.length), ∀ s', run step s (es.take i) = some s' → P s' es[i]) : Along P step s es := by
  induction es generalizing s with
  | nil => trivial
  | cons e es ih =>
    refine ⟨h 0 (Nat.zero_lt_succ _) s rfl, fun m hm => ih fun i hi s' hs' => ?_⟩
    exact h (i + 1) (Nat.succ_lt_succ hi) s' (run_cons_eq.2 ⟨m, hm, hs'⟩)

/-- The first events of a run. -/
theorem Along.left {P : σ → ε → Prop} {s : σ} {es fs : List ε} (h : Along P step s (es ++ fs)) : Along P step s es := by
  induction es generalizing s with
  | nil => trivial
  | cons e es ih => exact ⟨h.1, fun m hm => ih (h.2 m hm)⟩

theorem Along.imp {P Q : σ → ε → Prop} (h : ∀ s e, P s e → Q s e) {s : σ} {es : List ε} (hP : Along P step s es) :
    Along Q step s es := by
  induction es generalizing s with
  | nil => trivial
  | cons e es ih => exact ⟨h s e hP.1, fun m hm => ih (hP.2 m hm)⟩

theorem Along.and {P Q : σ → ε → Prop} {s : σ} {es : List ε} (hP : Along P step s es) (hQ : Along Q step s es) :
    Along (fun s e => P s e ∧ Q s e) step s es := by
  induction es generalizing s with
  | nil => trivial
  | cons e es ih => exact ⟨⟨hP.1, hQ.1⟩, fun m hm => ih (hP.2 m hm) (hQ.2 m hm)⟩

/-- **The invariant rule.** -/
theorem run_inv {I : σ → Prop} (hstep : ∀ s e s', I s → step s e = some s' → I s') {s s' : σ} {es : List ε}
    (h : run step s es = some s') (hs : I s) : I s' :=
  run_inv_along (P := fun _ _ => True) (fun s e s' hI _ => hstep s e s' hI) (along_of_forall s fun _ _ => trivial) h hs

/-! ## All states of a run -/

/-- Every state along the events satisfies `G`. -/
def Always (G : σ → Prop) (step : σ → ε → Option σ) : σ → List ε → Prop
  | s, [] => G s
  | s, e :: es => G s ∧ ∀ s', step s e = some s' → Always G step s' es

theorem always_cons_of_some {G : σ → Prop} {s s' : σ} {e : ε} {es : List ε} (h : step s e = some s') :
    Always G step s (e :: es) ↔ G s ∧ Always G step s' es := by
  simp [Always, h]

theorem always_cons_of_none {G : σ → Prop} {s : σ} {e : ε} {es : List ε} (h : step s e = none) :
    Always G step s (e :: es) ↔ G s := by
  simp [Always, h]

/-- Whether all states of a run are good is decided by running it. -/
instance decidableAlways {G : σ → Prop} [DecidablePred G] : ∀ (s : σ) (es : List ε), Decidable (Always G step s es)
  | s, [] => inferInstanceAs (Decidable (G s))
  | s, e :: es =>
    match h : step s e with
    | some s' =>
      have : Decidable (Always G step s' es) := decidableAlways s' es
      decidable_of_iff (G s ∧ Always G step s' es) (always_cons_of_some h).symm
    | none => decidable_of_iff (G s) (always_cons_of_none h).symm

theorem Always.start {G : σ → Prop} {s : σ} {es : List ε} (h : Always G step s es) : G s := by
  cases es with
  | nil => exact h
  | cons e es => exact h.1

/-- An invariant that steps keep under a condition, and that makes a state good. -/
theorem always_of_along {I G : σ → Prop} {P : σ → ε → Prop}
    (hstep : ∀ s e s', I s → P s e → step s e = some s' → I s') (hG : ∀ s, I s → G s) {s : σ} {es : List ε}
    (hP : Along P step s es) (hs : I s) : Always G step s es := by
  induction es generalizing s with
  | nil => exact hG s hs
  | cons e es ih => exact ⟨hG s hs, fun s' h => ih (hP.2 s' h) (hstep s e s' hs hP.1 h)⟩

/-- Where all states are good, every step the events take ends in a good state. -/
theorem Always.along {G : σ → Prop} {s : σ} {es : List ε} (h : Always G step s es) :
    Along (fun s e => ∀ s', step s e = some s' → G s') step s es := by
  induction es generalizing s with
  | nil => trivial
  | cons e es ih => exact ⟨fun s' hs' => (h.2 s' hs').start, fun s' hs' => ih (h.2 s' hs')⟩

/-- What holds of the steps from states with an invariant that steps keep under a condition. -/
theorem along_of_along {I : σ → Prop} {P Q : σ → ε → Prop}
    (hstep : ∀ s e s', I s → P s e → step s e = some s' → I s') (hQ : ∀ s e, I s → P s e → Q s e) {s : σ} {es : List ε}
    (hP : Along P step s es) (hs : I s) : Along Q step s es := by
  induction es generalizing s with
  | nil => trivial
  | cons e es ih => exact ⟨hQ s e hs hP.1, fun s' h => ih (hP.2 s' h) (hstep s e s' hs hP.1 h)⟩

/-- **Always, exactly**: where a step from a good state ends in a good state iff it meets a condition, the states of a
run are all good iff its steps all meet the condition. -/
theorem always_iff_along {G : σ → Prop} {C : σ → ε → Prop}
    (hstep : ∀ s e s', G s → step s e = some s' → (G s' ↔ C s e)) {s t : σ} {es : List ε}
    (h : run step s es = some t) (hs : G s) : Always G step s es ↔ Along C step s es := by
  induction es generalizing s with
  | nil => exact iff_of_true hs trivial
  | cons e es ih =>
    obtain ⟨m, hm, hr⟩ := run_cons_eq.1 h
    constructor
    · rintro ⟨-, hall⟩
      have hG := (hall m hm).start
      refine ⟨(hstep s e m hs hm).1 hG, fun n hn => ?_⟩
      rw [hm] at hn
      cases hn
      exact (ih hr hG).1 (hall m hm)
    · rintro ⟨hc, hall⟩
      have hG := (hstep s e m hs hm).2 hc
      refine ⟨hs, fun n hn => ?_⟩
      rw [hm] at hn
      cases hn
      exact (ih hr hG).2 (hall m hm)

/-- **Always, exactly**, among the states with an invariant that steps keep under a condition. -/
theorem always_iff_along_of {I G : σ → Prop} {P C : σ → ε → Prop}
    (hI : ∀ s e s', I s → P s e → step s e = some s' → I s')
    (hstep : ∀ s e s', I s → G s → P s e → step s e = some s' → (G s' ↔ C s e)) {s t : σ} {es : List ε}
    (hP : Along P step s es) (h : run step s es = some t) (hs : I s) (hG : G s) :
    Always G step s es ↔ Along C step s es := by
  induction es generalizing s with
  | nil => exact iff_of_true hG trivial
  | cons e es ih =>
    obtain ⟨m, hm, hr⟩ := run_cons_eq.1 h
    have hmI := hI s e m hs hP.1 hm
    have hiff := hstep s e m hs hG hP.1 hm
    have honly : ∀ n, step s e = some n → n = m := fun n hn => Option.some.inj (hn.symm.trans hm)
    constructor
    · rintro ⟨-, hall⟩
      have hmG := (hall m hm).start
      refine ⟨hiff.1 hmG, fun n hn => ?_⟩
      rw [honly n hn]
      exact (ih (hP.2 m hm) hr hmI hmG).1 (hall m hm)
    · rintro ⟨hc, hall⟩
      refine ⟨hG, fun n hn => ?_⟩
      rw [honly n hn]
      exact (ih (hP.2 m hm) hr hmI (hiff.2 hc)).2 (hall m hm)

/-! ## Observations -/

/-- What is seen of the steps along a run. -/
def trace (see : σ → ε → List ο) (step : σ → ε → Option σ) : σ → List ε → List ο
  | _, [] => []
  | s, e :: es => see s e ++ ((step s e).map fun s' => trace see step s' es).getD []

/-- **The trace rule**: a record that every step extends by what is seen of it. -/
theorem run_trace {I : σ → Prop} {see : σ → ε → List ο} {r : σ → List ο}
    (hI : ∀ s e s', I s → step s e = some s' → I s')
    (hsee : ∀ s e s', I s → step s e = some s' → r s' = r s ++ see s e) {s s' : σ} {es : List ε}
    (h : run step s es = some s') (hs : I s) : r s' = r s ++ trace see step s es := by
  induction es generalizing s with
  | nil =>
    cases h
    simp [trace]
  | cons e es ih =>
    obtain ⟨m, hm, hr⟩ := run_cons_eq.1 h
    rw [ih hr (hI s e m hs hm), hsee s e m hs hm, List.append_assoc]
    simp [trace, hm]

/-! ## Histories -/

/-- Every entry of the history is in the relation `Q` to the entries before it. -/
def EachAfter (Q : List ο → ο → Prop) (h : List ο) : Prop := ∀ pre o post, h = pre ++ o :: post → Q pre o

theorem eachAfter_nil (Q : List ο → ο → Prop) : EachAfter Q [] := by
  intro pre o post h
  simp at h

theorem eachAfter_left {Q : List ο → ο → Prop} {h h' : List ο} (hQ : EachAfter Q (h ++ h')) : EachAfter Q h :=
  fun pre o post hp => hQ pre o (post ++ h') (by rw [hp]; simp)

theorem eachAfter_concat {Q : List ο → ο → Prop} {h : List ο} {o : ο} :
    EachAfter Q (h ++ [o]) ↔ EachAfter Q h ∧ Q h o := by
  constructor
  · intro hQ
    exact ⟨fun pre p post hp => hQ pre p (post ++ [o]) (by rw [hp]; simp), hQ h o [] rfl⟩
  · rintro ⟨hQ, ho⟩ pre p post hp
    rcases List.eq_nil_or_concat post with rfl | ⟨post', l, rfl⟩
    · obtain ⟨rfl, hl⟩ := List.append_inj' hp rfl
      cases hl
      exact ho
    · rw [List.concat_eq_append, ← List.cons_append, ← List.append_assoc] at hp
      exact hQ pre p post' (List.append_inj' hp rfl).1

end OwonVds.Trans
