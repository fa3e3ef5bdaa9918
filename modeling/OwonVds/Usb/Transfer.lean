import Mathlib.Data.List.Induction
import Mathlib.Logic.Function.Basic
import Mathlib.Tactic.SplitIfs
import OwonVds.Lib.Trans
import OwonVds.Lib.Unknown

/-!
# Transfers

The wrappers of the transfers move bytes between the arrays of the Java program and libusb. A control transfer and the
writes let libusb work on the elements of the array; the reads let it work on a block from `malloc`, and then copy as
many bytes as were asked for into the array, however many were received: the bytes after these are what the block had.

What was in the memory is not known. A run is the same program of moves for any contents of it (`run_map`), so that
one run with a name for each of its bytes tells all. What is handed to libusb is the same for all contents if and only
if nothing is handed out that a read set without having received it (`asked_fixed_iff`).
-/

namespace OwonVds.Usb.Transfer

open OwonVds.Trans Unknown

variable {H β γ : Type}

/-! ## The wrappers -/

inductive Pipe
  | bulk | interrupt
  deriving DecidableEq, Repr

/-- What libusb is asked, with the bytes that it sends. -/
inductive Request (H β : Type)
  | controlMsg (handle : H) (requesttype request value index : Int) (data : List β) (size timeout : Int)
  | write (pipe : Pipe) (handle : H) (ep : Int) (data : List β) (size timeout : Int)
  | read (pipe : Pipe) (handle : H) (ep size timeout : Int)
  deriving DecidableEq

inductive Returned
  | numBytes (n : Int)
  | arrayIndexOutOfBounds
  deriving DecidableEq, Repr

structure Memory (H β : Type) where
  /-- The byte arrays of the Java program. -/
  arrays : Nat → List β
  asked : List (Request H β)
  returned : List Returned
  /-- How many bytes of the native memory have been used. -/
  used : Nat

def Memory.start (arrays : Nat → List β) : Memory H β := ⟨arrays, [], [], 0⟩

/-- `SetByteArrayRegion` from 0 on; `none` is the exception, which leaves the array as it is. -/
def setByteArrayRegion (array : List β) (size : Int) (bytes : List β) : Option (List β) :=
  if 0 ≤ size ∧ size ≤ array.length then some (overwrite (bytes.take size.toNat) array) else none

/-- The call returns, or the exception is thrown when it does. -/
def returning (region : Option (List β)) (numBytes : Int) : Returned :=
  match region with
  | some _ => .numBytes numBytes
  | none => .arrayIndexOutOfBounds

/-- The direction of a control transfer is the highest bit of the request type. -/
def hostToDevice (requesttype : Int) : Bool := requesttype % 256 < 128

/-- The wrapper of `usb_control_msg`, where libusb receives the bytes and reports the result. Elements that the array
does not have are not the wrapper's to hand to libusb: then the behaviour is undefined. -/
def usbControlMsg (handle : H) (requesttype request value index : Int) (array : Nat) (size timeout : Int)
    (received : List β) (result : Int) (s : Memory H β) : Option (Memory H β) :=
  let elements := s.arrays array
  if size ≤ elements.length ∧ received.length ≤ size.toNat then
    let data := if hostToDevice requesttype then elements.take size.toNat else []
    let bytes := overwrite received elements
    some { s with
      -- the array is what the elements are when they are released
      arrays := Function.update s.arrays array bytes
      asked := s.asked ++ [.controlMsg handle requesttype request value index data size timeout]
      returned := s.returned ++ [returning (setByteArrayRegion elements size bytes) result] }
  else none

/-- The wrapper of a write. -/
def usbWrite (pipe : Pipe) (handle : H) (ep : Int) (array : Nat) (size timeout result : Int) (s : Memory H β) :
    Option (Memory H β) :=
  let elements := s.arrays array
  if size ≤ elements.length then
    some { s with
      asked := s.asked ++ [.write pipe handle ep (elements.take size.toNat) size timeout]
      returned := s.returned ++ [.numBytes result] }
  else none

def usbBulkWrite (handle : H) (ep : Int) (array : Nat) (size timeout result : Int) (s : Memory H β) :
    Option (Memory H β) := usbWrite .bulk handle ep array size timeout result s

def usbInterruptWrite (handle : H) (ep : Int) (array : Nat) (size timeout result : Int) (s : Memory H β) :
    Option (Memory H β) := usbWrite .interrupt handle ep array size timeout result s

/-- A block from `malloc`, with what the memory had. -/
def block (native : Nat → β) (used n : Nat) : List β := (List.range n).map fun i => native (used + i)

/-- The wrapper of a read. `malloc` finds room or returns `NULL`, as it does for a negative size; libusb receives no
bytes without a block. -/
def usbRead (native : Nat → β) (pipe : Pipe) (handle : H) (ep : Int) (array : Nat) (size timeout : Int) (room : Bool)
    (received : List β) (result : Int) (s : Memory H β) : Option (Memory H β) :=
  let asked := s.asked ++ [.read pipe handle ep size timeout]
  if room ∧ 0 ≤ size then
    if received.length ≤ size.toNat then
      let bytes := overwrite received (block native s.used size.toNat)
      let region := setByteArrayRegion (s.arrays array) size bytes
      some {
        arrays := Function.update s.arrays array (region.getD (s.arrays array))
        asked := asked
        returned := s.returned ++ [returning region result]
        used := s.used + size.toNat }
    else none
  else if received.length = 0 then some { s with asked := asked, returned := s.returned ++ [.numBytes result] }
  else none

def usbBulkRead (native : Nat → β) (handle : H) (ep : Int) (array : Nat) (size timeout : Int) (room : Bool)
    (received : List β) (result : Int) (s : Memory H β) : Option (Memory H β) :=
  usbRead native .bulk handle ep array size timeout room received result s

def usbInterruptRead (native : Nat → β) (handle : H) (ep : Int) (array : Nat) (size timeout : Int) (room : Bool)
    (received : List β) (result : Int) (s : Memory H β) : Option (Memory H β) :=
  usbRead native .interrupt handle ep array size timeout room received result s

/-! ## Runs -/

inductive Event (H β : Type)
  /-- The Java program sets a byte of an array. -/
  | store (array i : Nat) (value : β)
  | usbControlMsg (handle : H) (requesttype request value index : Int) (array : Nat) (size timeout : Int)
    (received : List β) (result : Int)
  | usbWrite (pipe : Pipe) (handle : H) (ep : Int) (array : Nat) (size timeout result : Int)
  | usbRead (pipe : Pipe) (handle : H) (ep : Int) (array : Nat) (size timeout : Int) (room : Bool) (received : List β)
    (result : Int)

def step (native : Nat → β) (s : Memory H β) : Event H β → Option (Memory H β)
  | .store array i value => some { s with arrays := Function.update s.arrays array ((s.arrays array).set i value) }
  | .usbControlMsg handle requesttype request value index array size timeout received result =>
    usbControlMsg handle requesttype request value index array size timeout received result s
  | .usbWrite .bulk handle ep array size timeout result => usbBulkWrite handle ep array size timeout result s
  | .usbWrite .interrupt handle ep array size timeout result => usbInterruptWrite handle ep array size timeout result s
  | .usbRead .bulk handle ep array size timeout room received result =>
    usbBulkRead native handle ep array size timeout room received result s
  | .usbRead .interrupt handle ep array size timeout room received result =>
    usbInterruptRead native handle ep array size timeout room received result s

/-! ## Other bytes -/

def Request.map (f : β → γ) : Request H β → Request H γ
  | .controlMsg handle requesttype request value index data size timeout =>
    .controlMsg handle requesttype request value index (data.map f) size timeout
  | .write pipe handle ep data size timeout => .write pipe handle ep (data.map f) size timeout
  | .read pipe handle ep size timeout => .read pipe handle ep size timeout

def Memory.map (f : β → γ) (s : Memory H β) : Memory H γ :=
  ⟨List.map f ∘ s.arrays, s.asked.map (.map f), s.returned, s.used⟩

def Event.map (f : β → γ) : Event H β → Event H γ
  | .store array i value => .store array i (f value)
  | .usbControlMsg handle requesttype request value index array size timeout received result =>
    .usbControlMsg handle requesttype request value index array size timeout (received.map f) result
  | .usbWrite pipe handle ep array size timeout result => .usbWrite pipe handle ep array size timeout result
  | .usbRead pipe handle ep array size timeout room received result =>
    .usbRead pipe handle ep array size timeout room (received.map f) result

theorem map_setByteArrayRegion (f : β → γ) (array : List β) (size : Int) (bytes : List β) :
    setByteArrayRegion (array.map f) size (bytes.map f) = (setByteArrayRegion array size bytes).map (List.map f) := by
  unfold setByteArrayRegion
  rw [List.length_map]
  split_ifs with h
  · rw [Option.map_some, map_overwrite, List.map_take]
  · rfl

theorem returning_map (f : β → γ) (region : Option (List β)) (numBytes : Int) :
    returning (region.map (List.map f)) numBytes = returning region numBytes := by
  cases region with
  | none => rfl
  | some _ => rfl

theorem map_block (f : β → γ) (native : Nat → β) (used n : Nat) :
    (block native used n).map f = block (f ∘ native) used n := by
  unfold block
  rw [List.map_map]
  rfl

section

variable (f : β → γ) (s : Memory H β)

theorem usbControlMsg_map (handle : H) (requesttype request value index : Int) (array : Nat) (size timeout : Int)
    (received : List β) (result : Int) :
    usbControlMsg handle requesttype request value index array size timeout (received.map f) result (s.map f) =
      (usbControlMsg handle requesttype request value index array size timeout received result s).map (.map f) := by
  unfold usbControlMsg
  have harray : (s.map f).arrays array = (s.arrays array).map f := rfl
  dsimp only
  rw [harray, List.length_map, List.length_map, ← map_overwrite, map_setByteArrayRegion, returning_map]
  split_ifs with hsize hdir
  · simp [Memory.map, Request.map, Function.comp_update, List.map_take]
  · simp [Memory.map, Request.map, Function.comp_update]
  · rfl

theorem usbWrite_map (pipe : Pipe) (handle : H) (ep : Int) (array : Nat) (size timeout result : Int) :
    usbWrite pipe handle ep array size timeout result (s.map f) =
      (usbWrite pipe handle ep array size timeout result s).map (.map f) := by
  unfold usbWrite
  have harray : (s.map f).arrays array = (s.arrays array).map f := rfl
  dsimp only
  rw [harray, List.length_map]
  split_ifs with hsize
  · simp [Memory.map, Request.map, List.map_take]
  · rfl

theorem usbRead_map (native : Nat → β) (pipe : Pipe) (handle : H) (ep : Int) (array : Nat) (size timeout : Int)
    (room : Bool) (received : List β) (result : Int) :
    usbRead (f ∘ native) pipe handle ep array size timeout room (received.map f) result (s.map f) =
      (usbRead native pipe handle ep array size timeout room received result s).map (.map f) := by
  unfold usbRead
  have harray : (s.map f).arrays array = (s.arrays array).map f := rfl
  have hused : (s.map f).used = s.used := rfl
  dsimp only
  rw [harray, hused, List.length_map, ← map_block, ← map_overwrite, map_setByteArrayRegion, returning_map]
  split_ifs with hroom hlen hnull
  · have hgetD : ∀ region : Option (List β), (region.map (List.map f)).getD ((s.arrays array).map f) =
        (region.getD (s.arrays array)).map f := fun region => by cases region <;> rfl
    rw [hgetD]
    simp [Memory.map, Request.map, Function.comp_update]
  · rfl
  · simp [Memory.map, Request.map]
  · rfl

/-- **A step moves bytes**, whatever they are. -/
theorem step_map (native : Nat → β) (e : Event H β) :
    step (f ∘ native) (s.map f) (e.map f) = (step native s e).map (.map f) := by
  cases e with
  | store array i value => simp [step, Event.map, Memory.map, Function.comp_update, List.map_set]
  | usbControlMsg => exact usbControlMsg_map ..
  | usbWrite pipe =>
    cases pipe with
    | bulk => exact usbWrite_map ..
    | interrupt => exact usbWrite_map ..
  | usbRead pipe =>
    cases pipe with
    | bulk => exact usbRead_map ..
    | interrupt => exact usbRead_map ..

theorem run_map (native : Nat → β) (es : List (Event H β)) :
    run (step (f ∘ native)) (s.map f) (es.map (.map f)) = (run (step native) s es).map (.map f) := by
  induction es generalizing s with
  | nil => rfl
  | cons e es ih =>
    show (step (f ∘ native) (s.map f) (e.map f)).bind _ = Option.map _ ((step native s e).bind _)
    rw [step_map]
    cases step native s e with
    | none => rfl
    | some t => exact ih t

end

/-! ## What is not known -/

/-- What an event does to a byte of an array, where the arrays have these lengths: a byte that it sets is either one
that the block had before or not. -/
def Event.sets (lengths : Nat → Nat) (r i : Nat) : Event H β → Option Bool
  | .store array j _ => if array = r ∧ j = i then some false else none
  | .usbControlMsg _ _ _ _ _ array _ _ received _ => if array = r ∧ i < received.length then some false else none
  | .usbWrite .. => none
  | .usbRead _ _ _ array size _ room received _ =>
    if array = r ∧ room ∧ size ≤ lengths r ∧ i < size then some (received.length ≤ i) else none

/-- The array of which an event hands bytes to libusb to be sent, and how many. -/
def Event.hands : Event H β → Option (Nat × Nat)
  | .usbControlMsg _ requesttype _ _ _ array size _ _ _ =>
    if hostToDevice requesttype then some (array, size.toNat) else none
  | .usbWrite _ _ _ array size _ _ => some (array, size.toNat)
  | _ => none

/-- The last event that set the byte was a read that had not received it. -/
def stale (lengths : Nat → Nat) (r i : Nat) (es : List (Event H β)) : Bool :=
  (es.filterMap (Event.sets lengths r i)).getLast?.getD false

theorem stale_concat (lengths : Nat → Nat) (r i : Nat) (es : List (Event H β)) (e : Event H β) :
    stale lengths r i (es ++ [e]) = (e.sets lengths r i).getD (stale lengths r i es) := by
  unfold stale
  rw [List.filterMap_append]
  cases h : e.sets lengths r i with
  | none => simp [h]
  | some b => simp [h]

def Request.data : Request H β → List β
  | .controlMsg _ _ _ _ _ data _ _ => data
  | .write _ _ _ data _ _ => data
  | .read .. => []

theorem Request.map_eq_iff (f f' : β → γ) (q : Request H β) : q.map f = q.map f' ↔ q.data.map f = q.data.map f' := by
  cases q <;> simp [Request.map, Request.data]

variable {α : Type}

/-- All bytes that are sent are known. -/
def Memory.Clean (s : Memory H (α ⊕ Nat)) : Prop := ∀ q ∈ s.asked, ∀ x ∈ q.data, Known x

/-- What is asked is the same for all contents of the memory iff all bytes that are sent are known. -/
theorem clean_iff [Nontrivial α] {s : Memory H (α ⊕ Nat)} :
    (∀ g g' : Nat → α, (s.map (fill g)).asked = (s.map (fill g')).asked) ↔ s.Clean := by
  constructor
  · intro h q hq
    refine map_fill_iff.1 fun g g' => ?_
    exact (Request.map_eq_iff _ _ q).1 (List.map_inj_left.1 (h g g') q hq)
  · intro h g g'
    exact List.map_congr_left fun q hq => (Request.map_eq_iff _ _ q).2 (map_fill_iff.2 (h q hq) g g')

theorem unknownAt_block {used n i : Nat} : UnknownAt (block (Sum.inr : Nat → α ⊕ Nat) used n) i ↔ i < n := by
  unfold UnknownAt block
  by_cases h : i < n
  · refine iff_of_true ⟨.inr (used + i), ?_, not_known_inr _⟩ h
    simp [h]
  · refine iff_of_false ?_ h
    rintro ⟨x, hx, -⟩
    simp [h] at hx

/-- What a step does to the arrays and to what is asked, by what is known. -/
structure Sees (e : Event H α) (s t : Memory H (α ⊕ Nat)) : Prop where
  length : ∀ r, (t.arrays r).length = (s.arrays r).length
  unknown : ∀ r i, UnknownAt (t.arrays r) i ↔
    match e.sets (fun r => (s.arrays r).length) r i with
    | some fresh => fresh = true
    | none => UnknownAt (s.arrays r) i
  clean : t.Clean ↔ s.Clean ∧ ∀ r n, e.hands = some (r, n) → ∀ i < n, ¬ UnknownAt (s.arrays r) i

section

variable {e : Event H α} {s t : Memory H (α ⊕ Nat)} {array : Nat} {l : List (α ⊕ Nat)}

theorem clean_concat {q : Request H (α ⊕ Nat)} (h : t.asked = s.asked ++ [q]) :
    t.Clean ↔ s.Clean ∧ ∀ x ∈ q.data, Known x := by
  unfold Memory.Clean
  rw [h]
  simp [or_imp, forall_and]

theorem known_take_iff {n : Nat} : (∀ x ∈ l.take n, Known x) ↔ ∀ i < n, ¬ UnknownAt l i := by
  rw [forall_known_iff]
  simp only [unknownAt_take, not_and]

/-- A step that changes one array. -/
theorem sees_update (harrays : t.arrays = Function.update s.arrays array l) (hlen : l.length = (s.arrays array).length)
    (hother : ∀ r i, array ≠ r → e.sets (fun r => (s.arrays r).length) r i = none)
    (hself : ∀ i, UnknownAt l i ↔
      match e.sets (fun r => (s.arrays r).length) array i with
      | some fresh => fresh = true
      | none => UnknownAt (s.arrays array) i)
    (hclean : t.Clean ↔ s.Clean ∧ ∀ r n, e.hands = some (r, n) → ∀ i < n, ¬ UnknownAt (s.arrays r) i) : Sees e s t := by
  refine ⟨fun r => ?_, fun r i => ?_, hclean⟩
  · rw [harrays]
    by_cases hr : array = r
    · subst hr
      rw [Function.update_self, hlen]
    · rw [Function.update_of_ne (Ne.symm hr)]
  · rw [harrays]
    by_cases hr : array = r
    · subst hr
      rw [Function.update_self]
      exact hself i
    · rw [Function.update_of_ne (Ne.symm hr), hother r i hr]

theorem sees_store (array i : Nat) (value : α) (s : Memory H (α ⊕ Nat)) :
    Sees (.store array i value) s
      { s with arrays := Function.update s.arrays array ((s.arrays array).set i (.inl value)) } := by
  refine sees_update rfl List.length_set (fun r j hr => if_neg fun h => hr h.1) (fun j => ?_) ?_
  · rw [unknownAt_set]
    by_cases h : i = j
    · simp [Event.sets, h]
    · simp [Event.sets, h]
  · exact (and_iff_left fun r n h => by cases h).symm

theorem sees_controlMsg {handle : H} {requesttype request value index size timeout result : Int} {received : List α}
    (h : usbControlMsg handle requesttype request value index array size timeout (received.map .inl) result s =
      some t) :
    Sees (.usbControlMsg handle requesttype request value index array size timeout received result) s t := by
  unfold usbControlMsg at h
  rw [List.length_map] at h
  dsimp only at h
  by_cases hsize : size ≤ (s.arrays array).length ∧ received.length ≤ size.toNat
  · rw [if_pos hsize] at h
    cases h
    refine sees_update rfl (length_overwrite (by rw [List.length_map]; omega)) (fun r j hr => if_neg fun h => hr h.1)
      (fun j => ?_) ((clean_concat rfl).trans (and_congr_right fun _ => ?_))
    · rw [unknownAt_overwrite_inl]
      by_cases hj : j < received.length
      · simp [Event.sets, hj, Nat.not_le.2 hj]
      · simp [Event.sets, hj, Nat.not_lt.1 hj]
    · show (∀ x ∈ if hostToDevice requesttype then (s.arrays array).take size.toNat else [], Known x) ↔ _
      split_ifs with hdir
      · rw [known_take_iff]
        simp [Event.hands, hdir]
      · simp [Event.hands, hdir]
  · rw [if_neg hsize] at h
    cases h

theorem sees_write {pipe : Pipe} {handle : H} {ep size timeout result : Int}
    (h : usbWrite pipe handle ep array size timeout result s = some t) :
    Sees (.usbWrite pipe handle ep array size timeout result) s t := by
  unfold usbWrite at h
  dsimp only at h
  split_ifs at h with hsize
  cases h
  refine ⟨fun _ => rfl, fun _ _ => Iff.rfl, (clean_concat rfl).trans (and_congr_right fun _ => ?_)⟩
  show (∀ x ∈ (s.arrays array).take size.toNat, Known x) ↔ _
  rw [known_take_iff]
  simp [Event.hands]

theorem length_block (native : Nat → β) (used n : Nat) : (block native used n).length = n := by
  simp [block]

theorem sees_read {pipe : Pipe} {handle : H} {ep size timeout result : Int} {room : Bool} {received : List α}
    (h : usbRead Sum.inr pipe handle ep array size timeout room (received.map .inl) result s = some t) :
    Sees (.usbRead pipe handle ep array size timeout room received result) s t := by
  unfold usbRead at h
  rw [List.length_map] at h
  dsimp only at h
  have hclean : ∀ {t : Memory H (α ⊕ Nat)}, t.asked = s.asked ++ [.read pipe handle ep size timeout] →
      (t.Clean ↔ s.Clean ∧ ∀ r n, Event.hands (.usbRead pipe handle ep array size timeout room received result) =
        some (r, n) → ∀ i < n, ¬ UnknownAt (s.arrays r) i) := by
    intro t ht
    rw [clean_concat ht]
    simp [Request.data, Event.hands]
  split_ifs at h with hroom hlen hnull
  · cases h
    have hbytes : (overwrite (received.map .inl) (block (Sum.inr : Nat → α ⊕ Nat) s.used size.toNat)).length =
        size.toNat := by
      rw [length_overwrite (by rw [List.length_map, length_block]; exact hlen), length_block]
    unfold setByteArrayRegion
    by_cases hfit : size ≤ (s.arrays array).length
    · rw [if_pos ⟨hroom.2, hfit⟩, Option.getD_some, List.take_of_length_le (Nat.le_of_eq hbytes)]
      refine sees_update rfl (length_overwrite (by omega)) (fun r j hr => if_neg fun h => hr h.1) (fun j => ?_)
        (hclean rfl)
      rw [unknownAt_overwrite, hbytes, unknownAt_overwrite_inl, unknownAt_block]
      have hj : j < size.toNat ↔ (j : Int) < size := by omega
      by_cases hlt : (j : Int) < size
      · simp [Event.sets, hroom.1, hfit, hj, hlt]
      · simp [Event.sets, hj, hlt]
    · rw [if_neg fun h => hfit h.2, Option.getD_none]
      refine sees_update rfl rfl (fun r j hr => if_neg fun h => hr h.1) (fun j => ?_) (hclean rfl)
      simp [Event.sets, hfit]
  · -- no block: nothing is copied
    cases h
    refine ⟨fun _ => rfl, fun r j => ?_, hclean rfl⟩
    have hnone : Event.sets (fun r => (s.arrays r).length) r j
        (.usbRead pipe handle ep array size timeout room received result) = none := by
      refine if_neg fun h => hroom ⟨h.2.1, ?_⟩
      have := h.2.2.2
      omega
    rw [hnone]

theorem step_sees (h : step Sum.inr s (e.map .inl) = some t) : Sees e s t := by
  cases e with
  | store array i value =>
    cases h
    exact sees_store array i value s
  | usbControlMsg => exact sees_controlMsg h
  | usbWrite pipe =>
    cases pipe with
    | bulk => exact sees_write h
    | interrupt => exact sees_write h
  | usbRead pipe =>
    cases pipe with
    | bulk => exact sees_read h
    | interrupt => exact sees_read h

end

/-- No byte that the event hands out is stale after the events before it. -/
def HandsReceived (lengths : Nat → Nat) (pre : List (Event H β)) (e : Event H β) : Prop :=
  ∀ r n, e.hands = some (r, n) → ∀ i < n, stale lengths r i pre = false

/-- After a run with a name for each byte of the memory: which bytes are unknown, and whether one was sent. -/
structure Seen (lengths : Nat → Nat) (es : List (Event H α)) (u : Memory H (α ⊕ Nat)) : Prop where
  length : ∀ r, (u.arrays r).length = lengths r
  unknown : ∀ r i, UnknownAt (u.arrays r) i ↔ stale lengths r i es = true
  clean : u.Clean ↔ EachAfter (HandsReceived lengths) es

theorem run_seen (arrays : Nat → List α) {es : List (Event H α)} {u : Memory H (α ⊕ Nat)}
    (h : run (step Sum.inr) (.start fun r => (arrays r).map .inl) (es.map (.map .inl)) = some u) :
    Seen (fun r => (arrays r).length) es u := by
  induction es using List.reverseRecOn generalizing u with
  | nil =>
    cases h
    refine ⟨fun r => List.length_map .., fun r i => ?_, ?_⟩
    · exact iff_of_false (not_unknownAt_map_inl _ i) (fun h => by cases h)
    · exact iff_of_true (fun q hq => absurd hq List.not_mem_nil) (eachAfter_nil _)
  | append_singleton es e ih =>
    rw [List.map_append] at h
    obtain ⟨s, hs, h⟩ := run_append.1 h
    obtain ⟨t, ht, hu⟩ := run_cons_eq.1 h
    cases hu
    obtain ⟨hlen, hunknown, hclean⟩ := ih hs
    have hsees := step_sees ht
    have hlengths : (fun r => (s.arrays r).length) = fun r => (arrays r).length := funext hlen
    refine ⟨fun r => (hsees.length r).trans (hlen r), fun r i => ?_, ?_⟩
    · rw [hsees.unknown, hlengths, stale_concat]
      cases e.sets (fun r => (arrays r).length) r i with
      | none => exact hunknown r i
      | some fresh => exact Iff.rfl
    · rw [hsees.clean, eachAfter_concat, hclean]
      refine and_congr_right fun _ => ?_
      unfold HandsReceived
      simp only [hunknown, Bool.not_eq_true]

theorem Event.map_fill_inl (g : Nat → α) (e : Event H α) : (e.map (Sum.inl : α → α ⊕ Nat)).map (fill g) = e := by
  cases e <;> simp [Event.map, fill]

/-- A run is the run with names, filled in. -/
theorem run_fill (g : Nat → α) (arrays : Nat → List α) (es : List (Event H α)) :
    run (step g) (.start arrays) es =
      (run (step Sum.inr) (.start fun r => (arrays r).map .inl) (es.map (.map .inl))).map (.map (fill g)) := by
  have hes : (es.map (Event.map Sum.inl)).map (Event.map (fill g)) = es := by
    rw [List.map_map]
    exact (List.map_congr_left fun e _ => Event.map_fill_inl g e).trans (List.map_id es)
  have hstart : (Memory.start fun r => (arrays r).map Sum.inl : Memory H (α ⊕ Nat)).map (fill g) = .start arrays := by
    have harrays : (List.map (fill g) ∘ fun r => (arrays r).map Sum.inl) = arrays := by
      funext r
      show ((arrays r).map Sum.inl).map (fill g) = arrays r
      rw [List.map_map, fill_comp_inl, List.map_id]
    exact congrArg (fun a => (⟨a, [], [], 0⟩ : Memory H α)) harrays
  rw [← run_map, hes, hstart, fill_comp_inr]

instance nontrivial_jbyte : Nontrivial Int8 := ⟨0, 1, by decide⟩

/-- **What depends on the contents of the memory.** In every run of transfers and stores: libusb is asked the same for
any contents if and only if no event hands out a byte that was last set by a read which had not received it; and an
array is the same in the end for any contents if and only if it has no such byte. -/
theorem asked_fixed_iff (arrays : Nat → List Int8) {es : List (Event H Int8)} {native : Nat → Int8}
    {s : Memory H Int8} (h : run (step native) (.start arrays) es = some s) :
    ((∀ native' s', run (step native') (.start arrays) es = some s' → s'.asked = s.asked) ↔
      EachAfter (HandsReceived fun r => (arrays r).length) es) ∧
    ∀ r, (∀ native' s', run (step native') (.start arrays) es = some s' → s'.arrays r = s.arrays r) ↔
      ∀ i, stale (fun r => (arrays r).length) r i es = false := by
  rw [run_fill] at h
  obtain ⟨u, hu, rfl⟩ := Option.map_eq_some_iff.1 h
  obtain ⟨-, hunknown, hclean⟩ := run_seen arrays hu
  have hruns : ∀ native' s', run (step native') (.start arrays) es = some s' ↔ u.map (fill native') = s' := by
    intro native' s'
    rw [run_fill, hu, Option.map_some, Option.some_inj]
  simp only [hruns, forall_eq']
  refine ⟨?_, fun r => ?_⟩
  · rw [← hclean, ← clean_iff]
    exact ⟨fun h g g' => (h g).trans (h g').symm, fun h g => h g native⟩
  · have hknown := map_fill_iff (l := u.arrays r)
    rw [forall_known_iff] at hknown
    simp only [hunknown, Bool.not_eq_true] at hknown
    rw [← hknown]
    exact ⟨fun h g g' => (h g).trans (h g').symm, fun h g => h g native⟩

/-! ## A short read -/

/-- Four of eight bytes are received, and some bytes of the array are written. -/
def readAndWrite (size : Int) : List (Event Unit Int8) :=
  [.usbRead .bulk () 0x81 0 8 100 true [1, 2, 3, 4] 4, .usbWrite .bulk () 0x01 0 size 100 size]

def eightZeros : Nat → List Int8 := fun _ => List.replicate 8 0

/-- The four bytes that were received can be written; eight show what was in the memory. -/
theorem asked_fixed_iff_readAndWrite : ∃ s t,
    run (step fun _ => 0) (.start eightZeros) (readAndWrite 4) = some s ∧
    run (step fun _ => 0) (.start eightZeros) (readAndWrite 8) = some t ∧
    (∀ native' s', run (step native') (.start eightZeros) (readAndWrite 4) = some s' → s'.asked = s.asked) ∧
    ¬ ∀ native' s', run (step native') (.start eightZeros) (readAndWrite 8) = some s' → s'.asked = t.asked := by
  refine ⟨_, _, rfl, rfl, (asked_fixed_iff eightZeros rfl).1.2 ?_, fun h => ?_⟩
  · show EachAfter _ ([] ++ [_] ++ [_])
    rw [eachAfter_concat, eachAfter_concat]
    refine ⟨⟨eachAfter_nil _, fun r n hn => by cases hn⟩, fun r n hn => ?_⟩
    cases hn
    decide
  · have hfour := (asked_fixed_iff eightZeros rfl).1.1 h [_] _ [] rfl 0 8 rfl 4 (by decide)
    revert hfour
    decide

end OwonVds.Usb.Transfer
