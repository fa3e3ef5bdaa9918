import OwonVds.Lib.Trans

/-!
# Setting the configuration of a USB device

The wrapper of `usb_set_configuration` hands a call on to libusb only once: `configDone` is set before the outcome of
the call is known, and it is one flag for all devices. A call that is not handed on ends without a `return`, so that the
caller finds whatever value stands in the place of the result (`leftover`, an argument here), and the error string stays
what it was.

What the calls do is a history: the first call is handed on, all others are blocked (`Library.Inv`). So the calls do
what the modification is for if and only if the first succeeds and the others repeat it (`configuration_iff`).
-/

namespace OwonVds.Usb

open OwonVds.Trans

variable {H D : Type}

/-- A call of the wrapper, with what libusb reports if it is asked. -/
structure Call (H : Type) where
  handle : H
  configuration : Int
  result : Int
  /-- What stands where the caller expects the result of a function that returns none. -/
  leftover : Int
  /-- The error string before the call. -/
  errorBefore : Option String
  forwarded : Bool
  returned : Int
  /-- The error string after the call. -/
  error : Option String
  deriving DecidableEq, Repr

/-- The variables of the library, and the calls made. -/
structure Library (H : Type) where
  configDone : Int
  libusbJavaError : Option String
  calls : List (Call H)
  deriving DecidableEq, Repr

def Library.loaded : Library H := ⟨0, none, []⟩

inductive Event (H : Type)
  | usbSetConfiguration (handle : H) (configuration result leftover : Int)
  /-- Any other wrapper: it clears the error string, and may set it to an error of its own. -/
  | wrapper (error : Option String)
  | usbStrerror
  deriving DecidableEq, Repr

/-- The wrapper of `usb_set_configuration`. -/
def usbSetConfiguration (handle : H) (configuration result leftover : Int) (s : Library H) : Library H :=
  if s.configDone = 0 then
    { configDone := 1
      libusbJavaError := none
      calls := s.calls ++ [⟨handle, configuration, result, leftover, s.libusbJavaError, true, result, none⟩] }
  else
    { s with
      calls := s.calls ++
        [⟨handle, configuration, result, leftover, s.libusbJavaError, false, leftover, s.libusbJavaError⟩] }

/-- What `usb_strerror` reports, from libusb's own error. -/
def usbStrerror (libusb : String) (s : Library H) : String × Library H :=
  match s.libusbJavaError with
  | some error => (error, { s with libusbJavaError := none })
  | none => (libusb, s)

def step (s : Library H) : Event H → Option (Library H)
  | .usbSetConfiguration handle configuration result leftover =>
    some (usbSetConfiguration handle configuration result leftover s)
  | .wrapper error => some { s with libusbJavaError := error }
  | .usbStrerror => some (usbStrerror "" s).2

/-! ## The history of the calls -/

/-- The first call was handed on, and no other. -/
inductive FirstOnly : Int → List (Call H) → Prop
  | none : FirstOnly 0 []
  | some {first : Call H} {rest : List (Call H)} (hf : first.forwarded = true) (hr : first.returned = first.result)
      (he : first.error = none) (h : ∀ o ∈ rest, o.forwarded = false ∧ o.returned = o.leftover ∧
        o.error = o.errorBefore) : FirstOnly 1 (first :: rest)

def Library.Inv (s : Library H) : Prop := FirstOnly s.configDone s.calls

theorem step_inv (s : Library H) (e : Event H) (s' : Library H) (hs : s.Inv) (h : step s e = some s') : s'.Inv := by
  cases e with
  | usbSetConfiguration handle configuration result leftover =>
    cases h
    obtain ⟨done, error, calls⟩ := s
    unfold Library.Inv at hs ⊢
    dsimp only at hs
    cases hs with
    | none => exact .some rfl rfl rfl (by simp)
    | some hf hr he hrest =>
      refine .some hf hr he fun o ho => ?_
      rcases List.mem_append.1 ho with ho | ho
      · exact hrest o ho
      · rw [List.mem_singleton.1 ho]
        exact ⟨rfl, rfl, rfl⟩
  | wrapper error =>
    cases h
    exact hs
  | usbStrerror =>
    cases h
    unfold usbStrerror
    split <;> exact hs

/-! ## What the modification is for -/

/-- What a call is to do after the calls before it: it is handed on unless an earlier call for the device succeeded, it
returns libusb's result or else 0, and it leaves no error behind. -/
structure Call.Correct (deviceOf : H → D) (pre : List (Call H)) (o : Call H) : Prop where
  forwarded : o.forwarded = true ↔
    ¬ ∃ p ∈ pre, p.forwarded = true ∧ deviceOf p.handle = deviceOf o.handle ∧ 0 ≤ p.result
  returned : o.returned = if o.forwarded then o.result else 0
  error : o.error = none

/-- The call is the first, or repeats a first one that succeeded, while no error is stored and the place of the result
holds 0. -/
def Call.Repeats (deviceOf : H → D) (pre : List (Call H)) (o : Call H) : Prop :=
  pre = [] ∨ (∃ first, pre.head? = some first ∧ deviceOf first.handle = deviceOf o.handle ∧ 0 ≤ first.result) ∧
    o.errorBefore = none ∧ o.leftover = 0

/-- Where only the first call was handed on, it is the one that can have configured the device. -/
theorem configured_iff (deviceOf : H → D) {first : Call H} {pre : List (Call H)} (hf : first.forwarded = true)
    (hpre : ∀ q ∈ pre, q.forwarded = false) (o : Call H) :
    (∃ q ∈ first :: pre, q.forwarded = true ∧ deviceOf q.handle = deviceOf o.handle ∧ 0 ≤ q.result) ↔
      deviceOf first.handle = deviceOf o.handle ∧ 0 ≤ first.result := by
  constructor
  · rintro ⟨q, hq, hqf, hqd, hqr⟩
    rcases List.mem_cons.1 hq with rfl | hq
    · exact ⟨hqd, hqr⟩
    · rw [hpre q hq] at hqf
      cases hqf
  · rintro ⟨hd, hres⟩
    exact ⟨first, List.mem_cons_self, hf, hd, hres⟩

theorem correct_iff_repeats (deviceOf : H → D) {done : Int} {pre post : List (Call H)} {o : Call H}
    (h : FirstOnly done (pre ++ o :: post)) : o.Correct deviceOf pre ↔ o.Repeats deviceOf pre := by
  generalize hc : pre ++ o :: post = calls at h
  cases h with
  | none => simp at hc
  | @some first rest hf hr he hrest =>
    cases pre with
    | nil =>
      cases hc
      refine iff_of_true ⟨?_, ?_, he⟩ (.inl rfl)
      · simp [hf]
      · rw [hr, if_pos hf]
    | cons p pre =>
      cases hc
      obtain ⟨hof, hor, hoe⟩ := hrest o (by simp)
      have hpre : ∀ q ∈ pre, q.forwarded = false := fun q hq => (hrest q (List.mem_append_left _ hq)).1
      have honly := configured_iff deviceOf hf hpre o
      constructor
      · rintro ⟨hcf, hcr, hce⟩
        rw [honly, hof] at hcf
        have hsame : deviceOf first.handle = deviceOf o.handle ∧ 0 ≤ first.result := by
          apply Classical.byContradiction
          intro hn
          cases hcf.2 hn
        rw [hof] at hcr
        exact .inr ⟨⟨first, rfl, hsame⟩, hoe.symm.trans hce, hor.symm.trans hcr⟩
      · rintro (hnil | ⟨⟨q, hq, hsame⟩, heb, hl⟩)
        · cases hnil
        · cases hq
          refine ⟨?_, ?_, hoe.trans heb⟩
          · rw [honly, hof]
            simp [hsame]
          · rw [hor, hof, hl]
            rfl

/-- **When repeated configuration is blocked as intended**: when the first call of the process succeeds, and every later
one is for the same device, comes while no error is stored, and finds 0 in the place of the result. -/
theorem configuration_iff (deviceOf : H → D) {es : List (Event H)} {s : Library H}
    (h : run step .loaded es = some s) :
    EachAfter (Call.Correct deviceOf) s.calls ↔ EachAfter (Call.Repeats deviceOf) s.calls := by
  have hinv : s.Inv := run_inv step_inv h .none
  constructor
  · intro hc pre o post hs
    have hone : FirstOnly s.configDone (pre ++ o :: post) := hs ▸ hinv
    exact (correct_iff_repeats deviceOf hone).1 (hc pre o post hs)
  · intro hr pre o post hs
    have hone : FirstOnly s.configDone (pre ++ o :: post) := hs ▸ hinv
    exact (correct_iff_repeats deviceOf hone).2 (hr pre o post hs)

/-- A first call that fails, and a second one for the same device. -/
def retry : List (Event Nat) := [.usbSetConfiguration 1 1 (-16) 0, .usbSetConfiguration 1 1 0 4]

/-- The second call is not handed on, and returns what it finds. -/
theorem retry_blocked : ∃ s, run step .loaded retry = some s ∧ s.calls =
      [⟨1, 1, -16, 0, none, true, -16, none⟩, ⟨1, 1, 0, 4, none, false, 4, none⟩] ∧
    ¬ EachAfter (Call.Correct id) s.calls := by
  refine ⟨_, rfl, rfl, fun h => ?_⟩
  have hc := h [⟨1, 1, -16, 0, none, true, -16, none⟩] ⟨1, 1, 0, 4, none, false, 4, none⟩ [] rfl
  have hret := hc.returned
  revert hret
  decide

/-- A first call that succeeds, and the same call after `usb_strerror`. -/
def repeated : List (Event Nat) := [.usbSetConfiguration 1 1 0 4, .usbStrerror, .usbSetConfiguration 1 1 (-16) 0]

/-- The second call is blocked as intended. -/
theorem configuration_iff_repeated : ∃ s, run step .loaded repeated = some s ∧
    s.calls.map Call.forwarded = [true, false] ∧ EachAfter (Call.Correct id) s.calls := by
  have h : run step .loaded repeated = some ⟨1, none, [⟨1, 1, 0, 4, none, true, 0, none⟩] ++
      [⟨1, 1, -16, 0, none, false, 0, none⟩]⟩ := rfl
  refine ⟨_, h, rfl, (configuration_iff id h).2 ?_⟩
  refine eachAfter_concat.2 ⟨eachAfter_concat (h := []).2 ⟨eachAfter_nil _, .inl rfl⟩, .inr ⟨?_, rfl, rfl⟩⟩
  exact ⟨_, rfl, rfl, by decide⟩

end OwonVds.Usb
