import Mathlib.Data.List.Forall2
import OwonVds.Usb.Tree

/-!
# What the tree shows

`Mirrors heap main busses`: from `main` on, the heap has a doubly linked list of objects that are copies of the busses,
each with a doubly linked list of copies of its devices. `MirrorsUpTo` is the tree of a copy that stopped. Both speak
of objects that are never changed again, so that they hold as the heap grows (`Mirrors.extends`).
-/

namespace OwonVds.Usb

open Budget Linked

/-! ## Trees that mirror the lists -/

def Heap.busNext (h : Heap) (r : Ref) : Option Ref := h.busses[r]?.bind UsbBus.next

def Heap.busPrev (h : Heap) (r : Ref) : Option Ref := h.busses[r]?.bind UsbBus.prev

def Heap.deviceNext (h : Heap) (r : Ref) : Option Ref := h.devices[r]?.bind UsbDevice.next

def Heap.devicePrev (h : Heap) (r : Ref) : Option Ref := h.devices[r]?.bind UsbDevice.prev

/-- The object is a copy of the device and belongs to the bus. -/
def MirrorsDevice (h : Heap) (bus r : Ref) (dev : Libusb.Device) : Prop :=
  ∃ o, h.devices[r]? = some o ∧ o = dev.copy bus o.next o.prev

/-- The devices of a bus are a doubly linked list of copies. -/
def MirrorsDevices (h : Heap) (bus : Ref) (start : Option Ref) (devs : List Libusb.Device) : Prop :=
  ∃ refs, Segment h.deviceNext h.devicePrev none start refs none ∧ refs.Nodup ∧
    List.Forall₂ (MirrorsDevice h bus) refs devs

/-- The object is a copy of the bus. -/
def MirrorsBus (h : Heap) (r : Ref) (bus : Libusb.Bus) : Prop :=
  ∃ o, h.busses[r]? = some o ∧ o = bus.copy o.next o.prev o.devices ∧ MirrorsDevices h r o.devices bus.devices

/-- The busses are a doubly linked list of copies. -/
def Mirrors (h : Heap) (main : Option Ref) (busses : List Libusb.Bus) : Prop :=
  ∃ refs, Segment h.busNext h.busPrev none main refs none ∧ refs.Nodup ∧ List.Forall₂ (MirrorsBus h) refs busses

/-- The busses before the first that is not complete are a doubly linked list of copies; that one has no devices, and
the object after it is blank. -/
def MirrorsUpTo (h : Heap) (main : Option Ref) (busses : List Libusb.Bus) : Prop :=
  ∃ before bus rest refs r o, busses = before ++ bus :: rest ∧ bus.effort.stop ≠ none ∧
    Segment h.busNext h.busPrev none main refs (some r) ∧ (refs ++ [r]).Nodup ∧
    List.Forall₂ (MirrorsBus h) refs before ∧ h.busses[r]? = some o ∧ o = bus.copy o.next refs.getLast? none ∧
    (o.next = none ∧ rest = [] ∨ ∃ b, o.next = some b ∧ h.busses[b]? = some .blank ∧ rest ≠ [])

/-! ## Objects stay as they are -/

structure Heap.Extends (h' h : Heap) : Prop where
  busses : h.busses <+: h'.busses
  devices : h.devices <+: h'.devices

section Extends

variable {h h' : Heap} {r bus : Ref}

theorem getElem?_of_prefix {α : Type} {l l' : List α} {r : Nat} {a : α} (h : l <+: l') (ha : l[r]? = some a) :
    l'[r]? = some a := by
  obtain ⟨t, rfl⟩ := h
  obtain ⟨hr, -⟩ := List.getElem?_eq_some_iff.1 ha
  rw [List.getElem?_append_left hr]
  exact ha

theorem exists_of_forall₂ {α β : Type} {P : α → β → Prop} {l : List α} {l' : List β} (h : List.Forall₂ P l l') {a : α}
    (ha : a ∈ l) : ∃ b ∈ l', P a b := by
  induction h with
  | nil => cases ha
  | @cons b b' l l' hb _ ih =>
    rcases List.mem_cons.1 ha with rfl | ha
    · exact ⟨b', List.mem_cons_self, hb⟩
    · obtain ⟨c, hc, hp⟩ := ih ha
      exact ⟨c, List.mem_cons_of_mem _ hc, hp⟩

theorem MirrorsDevice.extends {dev : Libusb.Device} (hm : MirrorsDevice h bus r dev) (he : h'.Extends h) :
    MirrorsDevice h' bus r dev := by
  obtain ⟨o, ho, hc⟩ := hm
  exact ⟨o, getElem?_of_prefix he.devices ho, hc⟩

theorem MirrorsDevices.extends {start : Option Ref} {devs : List Libusb.Device} (hm : MirrorsDevices h bus start devs)
    (he : h'.Extends h) : MirrorsDevices h' bus start devs := by
  obtain ⟨refs, hseg, hnd, hall⟩ := hm
  have hsame : ∀ r ∈ refs, h'.devices[r]? = h.devices[r]? := by
    intro r hr
    obtain ⟨dev, -, o, ho, -⟩ := exists_of_forall₂ hall hr
    rw [ho, getElem?_of_prefix he.devices ho]
  refine ⟨refs, hseg.congr (fun r hr => ?_) (fun r hr => ?_), hnd, hall.imp fun _ _ hm => hm.extends he⟩
  · rw [Heap.deviceNext, hsame r hr]
    rfl
  · rw [Heap.devicePrev, hsame r hr]
    rfl

theorem MirrorsBus.extends {b : Libusb.Bus} (hm : MirrorsBus h r b) (he : h'.Extends h) : MirrorsBus h' r b := by
  obtain ⟨o, ho, hc, hd⟩ := hm
  exact ⟨o, getElem?_of_prefix he.busses ho, hc, hd.extends he⟩

/-- The way along busses that mirror others. -/
theorem Segment.extends {before start stop : Option Ref} {refs : List Ref} {busses : List Libusb.Bus}
    (hseg : Segment h.busNext h.busPrev before start refs stop) (hall : List.Forall₂ (MirrorsBus h) refs busses)
    (he : h'.Extends h) : Segment h'.busNext h'.busPrev before start refs stop := by
  have hsame : ∀ r ∈ refs, h'.busses[r]? = h.busses[r]? := by
    intro r hr
    obtain ⟨bus, -, o, ho, -⟩ := exists_of_forall₂ hall hr
    rw [ho, getElem?_of_prefix he.busses ho]
  refine hseg.congr (fun r hr => ?_) fun r hr => ?_
  · rw [Heap.busNext, hsame r hr]
    rfl
  · rw [Heap.busPrev, hsame r hr]
    rfl

/-- **A tree stays what it is** while objects are made. -/
theorem Mirrors.extends {main : Option Ref} {busses : List Libusb.Bus} (hm : Mirrors h main busses)
    (he : h'.Extends h) : Mirrors h' main busses := by
  obtain ⟨refs, hseg, hnd, hall⟩ := hm
  exact ⟨refs, Segment.extends hseg hall he, hnd, hall.imp fun _ _ hm => hm.extends he⟩

theorem MirrorsUpTo.extends {main : Option Ref} {busses : List Libusb.Bus} (hm : MirrorsUpTo h main busses)
    (he : h'.Extends h) : MirrorsUpTo h' main busses := by
  obtain ⟨before, bus, rest, refs, r, o, hb, hstop, hseg, hnd, hall, ho, hc, hnext⟩ := hm
  refine ⟨before, bus, rest, refs, r, o, hb, hstop, Segment.extends hseg hall he, hnd, hall.imp fun _ _ hm =>
    hm.extends he, getElem?_of_prefix he.busses ho, hc, hnext.imp id ?_⟩
  rintro ⟨b, hb, hblank, hrest⟩
  exact ⟨b, hb, getElem?_of_prefix he.busses hblank, hrest⟩

end Extends

/-! ## The copy mirrors the lists -/

section Copies

variable {h : Heap}

theorem deviceCopies_mirror {bus : Ref} (devs : List Libusb.Device) (old post : List UsbDevice) (prev : Option Ref)
    (hd : h.devices = old ++ (deviceCopies bus old.length prev devs ++ post)) :
    Segment h.deviceNext h.devicePrev prev (headRef old.length devs) (List.range' old.length devs.length) none ∧
      List.Forall₂ (MirrorsDevice h bus) (List.range' old.length devs.length) devs := by
  induction devs generalizing old prev with
  | nil => exact ⟨rfl, .nil⟩
  | cons dev devs ih =>
    have ho : h.devices[old.length]? = some (dev.copy bus (headRef (old.length + 1) devs) prev) := by
      rw [hd, List.getElem?_append_right (Nat.le_refl _), Nat.sub_self]
      rfl
    have hrest := ih (old ++ [dev.copy bus (headRef (old.length + 1) devs) prev]) (some old.length) (by
      rw [hd, List.length_append, List.append_assoc]
      rfl)
    rw [List.length_append] at hrest
    obtain ⟨hseg, hall⟩ := hrest
    rw [List.length_cons, List.range'_succ]
    refine ⟨⟨rfl, ?_, ?_⟩, .cons ⟨_, ho, rfl⟩ hall⟩
    · rw [Heap.devicePrev, ho]
      rfl
    · rw [Heap.deviceNext, ho]
      exact hseg

theorem busCopies_mirror (busses : List Libusb.Bus) (old post : List UsbBus) (olds posts : List UsbDevice)
    (prev : Option Ref) (hb : h.busses = old ++ (busCopies old.length prev olds.length busses ++ post))
    (hd : h.devices = olds ++ (treeDevices old.length olds.length busses ++ posts)) :
    Segment h.busNext h.busPrev prev (headRef old.length busses) (List.range' old.length busses.length) none ∧
      List.Forall₂ (MirrorsBus h) (List.range' old.length busses.length) busses := by
  induction busses generalizing old olds prev with
  | nil => exact ⟨rfl, .nil⟩
  | cons bus busses ih =>
    have ho : h.busses[old.length]? =
        some (bus.copy (headRef (old.length + 1) busses) prev (headRef olds.length bus.devices)) := by
      rw [hb, List.getElem?_append_right (Nat.le_refl _), Nat.sub_self]
      rfl
    have hrest := ih (old ++ [bus.copy (headRef (old.length + 1) busses) prev (headRef olds.length bus.devices)])
      (olds ++ deviceCopies old.length olds.length none bus.devices) (some old.length) (by
        rw [hb, List.length_append, List.length_append, length_deviceCopies, List.append_assoc]
        rfl) (by
        rw [hd, List.length_append, List.length_append, length_deviceCopies, List.append_assoc, treeDevices,
          List.append_assoc]
        rfl)
    rw [List.length_append] at hrest
    obtain ⟨hseg, hall⟩ := hrest
    rw [treeDevices, List.append_assoc] at hd
    obtain ⟨hdseg, hdall⟩ := deviceCopies_mirror bus.devices olds _ none hd
    rw [List.length_cons, List.range'_succ]
    refine ⟨⟨rfl, ?_, ?_⟩, .cons ⟨_, ho, rfl, _, hdseg, List.nodup_range', hdall⟩ hall⟩
    · rw [Heap.busPrev, ho]
      rfl
    · rw [Heap.busNext, ho]
      exact hseg

theorem getLast?_cons_or {α : Type} (a : α) (l : List α) (b : Option α) :
    (a :: l).getLast?.or b = l.getLast?.or (some a) := by
  rw [List.getLast?_cons]
  cases l.getLast? <;> rfl

theorem stoppedBusses_mirror (busses : List Libusb.Bus) (old : List UsbBus) (olds posts : List UsbDevice)
    (prev : Option Ref) (hstop : (bussesEffort busses).stop ≠ none)
    (hb : h.busses = old ++ stoppedBusses old.length prev olds.length busses)
    (hd : h.devices = olds ++ (stoppedDevices old.length olds.length busses ++ posts)) :
    ∃ before bus rest o, busses = before ++ bus :: rest ∧ bus.effort.stop ≠ none ∧
      Segment h.busNext h.busPrev prev (headRef old.length busses) (List.range' old.length before.length)
        (some (old.length + before.length)) ∧
      List.Forall₂ (MirrorsBus h) (List.range' old.length before.length) before ∧
      h.busses[old.length + before.length]? = some o ∧
      o = bus.copy o.next ((List.range' old.length before.length).getLast?.or prev) none ∧
      (o.next = none ∧ rest = [] ∨ ∃ b, o.next = some b ∧ h.busses[b]? = some .blank ∧ rest ≠ []) := by
  induction busses generalizing old olds prev with
  | nil => exact absurd rfl hstop
  | cons bus busses ih =>
    by_cases hbus : bus.effort.stop = none
    · rw [stoppedBusses, if_pos hbus] at hb
      rw [stoppedDevices, if_pos hbus, List.append_assoc] at hd
      have ho : h.busses[old.length]? =
          some (bus.copy (headRef (old.length + 1) busses) prev (headRef olds.length bus.devices)) := by
        rw [hb, List.getElem?_append_right (Nat.le_refl _), Nat.sub_self]
        rfl
      have hstop' : (bussesEffort busses).stop ≠ none := by
        intro hn
        refine hstop (Effort.andThen_stop_eq_none.2 ⟨?_, Effort.andThen_stop_eq_none.2 ⟨hbus, hn⟩⟩)
        cases busses <;> rfl
      obtain ⟨before, bus', rest, o, hbs, hs, hseg, hall, ho', hc, hnext⟩ :=
        ih (old ++ [bus.copy (headRef (old.length + 1) busses) prev (headRef olds.length bus.devices)])
          (olds ++ deviceCopies old.length olds.length none bus.devices) (some old.length) hstop' (by
            rw [hb, List.length_append, List.length_append, length_deviceCopies, List.append_assoc]
            rfl) (by
            rw [hd, List.length_append, List.length_append, length_deviceCopies, List.append_assoc]
            rfl)
      rw [List.length_append] at hseg hall ho' hc
      obtain ⟨hdseg, hdall⟩ := deviceCopies_mirror bus.devices olds _ none hd
      have hindex : old.length + (bus :: before).length = old.length + [bus].length + before.length := by
        simp only [List.length_cons, List.length_nil]
        omega
      refine ⟨bus :: before, bus', rest, o, by rw [hbs]; rfl, hs, ?_, ?_, ?_, ?_, hnext⟩
      · rw [hindex, List.length_cons, List.range'_succ]
        refine ⟨rfl, ?_, ?_⟩
        · rw [Heap.busPrev, ho]
          rfl
        · rw [Heap.busNext, ho]
          exact hseg
      · rw [List.length_cons, List.range'_succ]
        exact .cons ⟨_, ho, rfl, _, hdseg, List.nodup_range', hdall⟩ hall
      · rw [hindex]
        exact ho'
      · rw [List.length_cons, List.range'_succ, getLast?_cons_or]
        exact hc
    · rw [stoppedBusses, if_neg hbus] at hb
      have ho : h.busses[old.length]? = some (bus.copy (headRef (old.length + 1) busses) prev none) := by
        rw [hb, List.getElem?_append_right (Nat.le_refl _), Nat.sub_self]
        rfl
      refine ⟨[], bus, busses, _, rfl, hbus, rfl, .nil, ho, rfl, ?_⟩
      cases busses with
      | nil => exact .inl ⟨rfl, rfl⟩
      | cons bus' busses =>
        refine .inr ⟨old.length + 1, rfl, ?_, List.cons_ne_nil _ _⟩
        rw [hb, List.getElem?_append_right (Nat.le_add_right _ _), Nat.add_sub_cancel_left]
        rfl

end Copies

/-! ## A call -/

theorem usbBusses_none (busses : List Libusb.Bus) (heap : Heap) :
    Ends (BussesFail heap.busses heap.devices) (usbBusses busses none none) ⟨heap, none⟩ (treeEffort busses)
      (fun _ t => t = ⟨⟨heap.busses ++ busCopies heap.busses.length none heap.devices.length busses,
        heap.devices ++ treeDevices heap.busses.length heap.devices.length busses⟩,
          headRef heap.busses.length busses⟩)
      (BussesStop heap.busses heap.devices none (headRef heap.busses.length busses) busses) := by
  obtain ⟨bs, ds⟩ := heap
  cases busses with
  | nil =>
    refine ends_pure ?_
    show _ = Copying.mk ⟨bs ++ [], ds ++ []⟩ none
    rw [List.append_nil, List.append_nil]
  | cons bus busses =>
    have hfirst : usbBusses (bus :: busses) none none = (do
        let obj ← newBus "shared library error: Error NewObject (usb_busObj)"
        update fun s => { s with main := some obj }
        usbBusses (bus :: busses) (some obj) none) := by
      simp [usbBusses]
    rw [hfirst]
    have heff : treeEffort (bus :: busses) =
        Effort.one.andThen (Effort.nothing.andThen (bussesEffort (bus :: busses))) := by
      rw [Effort.nothing_andThen]
      rfl
    rw [heff]
    refine (newBus_ends fun e => ⟨⟨e, rfl⟩, List.prefix_rfl, List.prefix_rfl⟩).bind ?_
    rintro obj t ⟨rfl, rfl⟩
    refine (ends_update _).bind ?_
    rintro - t rfl
    exact usbBusses_ends (bus :: busses) bs ds none (some bs.length)

/-- What a call found and returned. -/
structure Tree where
  busses : List Libusb.Bus
  room : Nat
  main : Option Ref
  error : Option String

/-- What a call is to have returned: `NULL` and an error where there was no room; the whole tree, or the tree up to the
bus where the copy stopped. -/
def Tree.Right (heap : Heap) (t : Tree) : Prop :=
  if t.room < (treeEffort t.busses).spent then t.main = none ∧ t.error ≠ none
  else
    match (treeEffort t.busses).stop with
    | none => t.error = none ∧ Mirrors heap t.main t.busses
    | some (.null e) => t.main = none ∧ t.error = some e
    | some (.main e) => t.error = e ∧ MirrorsUpTo heap t.main t.busses

/-- The tree of a call. -/
def treeOf (busses : List Libusb.Bus) (room : Nat) (heap : Heap) : Tree :=
  ⟨busses, room, (usbGetBusses busses room heap).main, (usbGetBusses busses room heap).error⟩

/-- **A call** makes objects only, and returns what it is to return. -/
theorem usbGetBusses_right (busses : List Libusb.Bus) (room : Nat) (heap : Heap) :
    (usbGetBusses busses room heap).heap.Extends heap ∧
      (treeOf busses room heap).Right (usbGetBusses busses room heap).heap := by
  have hends := usbBusses_none busses heap
  unfold Tree.Right treeOf usbGetBusses
  dsimp only
  split_ifs with hroom
  · obtain ⟨e, t, b, hrun, ⟨error, rfl⟩, hbs, hds⟩ := hends.fails room hroom
    rw [hrun]
    exact ⟨⟨hbs, hds⟩, rfl, nofun⟩
  · have hroom : (treeEffort busses).spent ≤ room := Nat.le_of_not_lt hroom
    cases hstop : (treeEffort busses).stop with
    | none =>
      obtain ⟨⟨⟩, t, hrun, rfl⟩ := hends.returns hstop room hroom
      rw [hrun]
      refine ⟨⟨List.prefix_append .., List.prefix_append ..⟩, rfl, ?_⟩
      obtain ⟨hseg, hall⟩ := busCopies_mirror (h := ⟨_, _⟩) busses heap.busses [] heap.devices [] none
        (by rw [List.append_nil]) (by rw [List.append_nil])
      exact ⟨_, hseg, List.nodup_range', hall⟩
    | some e =>
      obtain ⟨t, b, hrun, hbs, hds, hmain⟩ := hends.stops e hstop room hroom
      rw [hrun]
      have hext : t.heap.Extends heap := by
        refine ⟨?_, (List.prefix_append ..).trans hds⟩
        rw [hbs]
        exact List.prefix_append ..
      cases e with
      | null error => exact ⟨hext, rfl, rfl⟩
      | main error =>
        refine ⟨hext, rfl, ?_⟩
        obtain ⟨posts, hds⟩ := hds
        rw [List.append_assoc] at hds
        have hne : (bussesEffort busses).stop ≠ none := by
          intro hn
          have : (treeEffort busses).stop = none := by
            refine Effort.andThen_stop_eq_none.2 ⟨?_, hn⟩
            cases busses <;> rfl
          rw [this] at hstop
          cases hstop
        obtain ⟨before, bus, rest, o, hb, hs, hseg, hall, ho, hc, hnext⟩ :=
          stoppedBusses_mirror (h := t.heap) busses heap.busses heap.devices posts none hne hbs hds.symm
        refine ⟨before, bus, rest, _, _, o, hb, hs, ?_, ?_, hall, ho, ?_, hnext⟩
        · show Segment t.heap.busNext t.heap.busPrev none t.main _ _
          rw [hmain]
          exact hseg
        · rw [← List.range'_1_concat]
          exact List.nodup_range'
        · rw [Option.or_none] at hc
          exact hc

end OwonVds.Usb
