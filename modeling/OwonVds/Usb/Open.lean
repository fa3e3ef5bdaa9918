import Mathlib.Data.List.Nodup
import OwonVds.Usb.Mirror

/-!
# Trees of several calls, and the devices in them

A program calls `usb_get_busses` again and again, while libusb finds other busses and devices. Every tree stays what it
was made of (`trees_mirror`). A device object of any of them opens the device that has its address in the lists of the
last call, and no other (`tree_device_opens`).
-/

namespace OwonVds.Usb

open Budget Linked

/-! ## Sessions -/

structure Session where
  heap : Heap
  /-- The lists that the library has from libusb. -/
  busses : List Libusb.Bus
  trees : List Tree

def Session.getBusses (s : Session) (call : List Libusb.Bus × Nat) : Session :=
  { heap := (usbGetBusses call.1 call.2 s.heap).heap
    busses := call.1
    trees := s.trees ++ [treeOf call.1 call.2 s.heap] }

/-- The session after the calls. -/
def Session.calls (heap : Heap) (calls : List (List Libusb.Bus × Nat)) : Session :=
  calls.foldl Session.getBusses ⟨heap, [], []⟩

theorem Tree.Right.extends {heap heap' : Heap} {t : Tree} (ht : t.Right heap) (he : heap'.Extends heap) :
    t.Right heap' := by
  unfold Tree.Right at ht ⊢
  split_ifs at ht ⊢ with hroom
  · exact ht
  · cases hstop : (treeEffort t.busses).stop with
    | none =>
      rw [hstop] at ht
      exact ⟨ht.1, ht.2.extends he⟩
    | some e =>
      rw [hstop] at ht
      cases e with
      | null e => exact ht
      | main e => exact ⟨ht.1, ht.2.extends he⟩

/-- The trees are those of the calls so far, and right. -/
structure Session.Inv (s : Session) (calls : List (List Libusb.Bus × Nat)) : Prop where
  recorded : s.trees.map (fun t => (t.busses, t.room)) = calls
  right : ∀ t ∈ s.trees, t.Right s.heap

theorem Session.Inv.getBusses {s : Session} {calls : List (List Libusb.Bus × Nat)} (hs : s.Inv calls)
    (call : List Libusb.Bus × Nat) : (s.getBusses call).Inv (calls ++ [call]) := by
  obtain ⟨hext, hright⟩ := usbGetBusses_right call.1 call.2 s.heap
  constructor
  · show (s.trees ++ [_]).map _ = _
    rw [List.map_append, hs.recorded]
    rfl
  · intro t ht
    rcases List.mem_append.1 ht with ht | ht
    · exact (hs.right t ht).extends hext
    · rw [List.mem_singleton.1 ht]
      exact hright

theorem foldl_inv (s : Session) (before calls : List (List Libusb.Bus × Nat)) (hs : s.Inv before) :
    (calls.foldl Session.getBusses s).Inv (before ++ calls) := by
  induction calls generalizing s before with
  | nil =>
    rw [List.append_nil]
    exact hs
  | cons call calls ih =>
    have h := ih (s.getBusses call) (before ++ [call]) (hs.getBusses call)
    rw [List.append_assoc] at h
    exact h

theorem calls_inv (heap : Heap) (calls : List (List Libusb.Bus × Nat)) : (Session.calls heap calls).Inv calls :=
  foldl_inv ⟨heap, [], []⟩ [] calls ⟨rfl, nofun⟩

/-- The device object is in the tree. -/
def Heap.Reaches (h : Heap) (main : Option Ref) (r : Ref) : Prop :=
  ∃ refs drefs b o, Segment h.busNext h.busPrev none main refs none ∧ b ∈ refs ∧ h.busses[b]? = some o ∧
    Segment h.deviceNext h.devicePrev none o.devices drefs none ∧ r ∈ drefs

/-- A device object of a complete tree is a copy of a device in the lists, under the copy of its bus. -/
theorem Mirrors.device {h : Heap} {main : Option Ref} {busses : List Libusb.Bus} {r : Ref} (hm : Mirrors h main busses)
    (hr : h.Reaches main r) : ∃ bus ∈ busses, ∃ dev ∈ bus.devices, ∃ b o, MirrorsBus h b bus ∧ h.devices[r]? = some o ∧
      o = dev.copy b o.next o.prev := by
  obtain ⟨refs, drefs, b, o, hseg, hb, ho, hdseg, hr⟩ := hr
  obtain ⟨refs', hseg', -, hall⟩ := hm
  obtain rfl := hseg.unique hseg'
  obtain ⟨bus, hbus, hmirror⟩ := exists_of_forall₂ hall hb
  have hcopy := hmirror
  obtain ⟨o', ho', -, drefs', hdseg', -, hdall⟩ := hcopy
  rw [ho] at ho'
  cases ho'
  obtain rfl := hdseg.unique hdseg'
  obtain ⟨dev, hdev, od, hod, hc⟩ := exists_of_forall₂ hdall hr
  exact ⟨bus, hbus, dev, hdev, b, od, hmirror, hod, hc⟩

theorem toInt64_inj {a b : UInt64} (h : a.toInt64 = b.toInt64) : a = b := congrArg Int64.toUInt64 h

/-- The structures of the devices are at different addresses. -/
def Apart (busses : List Libusb.Bus) : Prop :=
  ((busses.flatMap Libusb.Bus.devices).map Libusb.Device.address).Nodup

theorem deviceAt_eq_some {busses : List Libusb.Bus} (ha : Apart busses) {bus : Libusb.Bus} {dev : Libusb.Device}
    (hb : bus ∈ busses) (hd : dev ∈ bus.devices) : deviceAt busses dev.address.toInt64 = some dev := by
  have hmem : dev ∈ busses.flatMap Libusb.Bus.devices := List.mem_flatMap.2 ⟨bus, hb, hd⟩
  unfold deviceAt
  cases hf : (busses.flatMap Libusb.Bus.devices).find? fun d => d.address.toInt64 = dev.address.toInt64 with
  | none => simpa using List.find?_eq_none.1 hf dev hmem
  | some dev' =>
    have haddr : dev'.address = dev.address := toInt64_inj (by simpa using List.find?_some hf)
    rw [List.inj_on_of_nodup_map ha (List.mem_of_find?_eq_some hf) hmem haddr]

theorem deviceAt_eq_none {busses : List Libusb.Bus} {address : UInt64}
    (h : ∀ bus ∈ busses, ∀ dev ∈ bus.devices, dev.address ≠ address) : deviceAt busses address.toInt64 = none := by
  refine List.find?_eq_none.2 fun dev hdev => ?_
  obtain ⟨bus, hb, hd⟩ := List.mem_flatMap.1 hdev
  simpa using fun ha => h bus hb dev hd (toInt64_inj ha)

/-- **A device object opens its device.** After any calls, an object of a complete tree of any of them is a copy of a
device that was found at that call, under the copy of its bus. Where the devices are now apart, it opens the one that has
its address, and no other; where none has, it opens none and the error says so. -/
theorem tree_device_opens (heap : Heap) (calls : List (List Libusb.Bus × Nat)) (openDevice : Libusb.Device → Int64)
    {t : Tree} (ht : t ∈ (Session.calls heap calls).trees) (hroom : (treeEffort t.busses).spent ≤ t.room)
    (hwhole : ∀ bus ∈ t.busses, ∀ dev ∈ bus.devices, dev.Whole) {r : Ref}
    (hr : (Session.calls heap calls).heap.Reaches t.main r) :
    ∃ bus ∈ t.busses, ∃ dev ∈ bus.devices, ∃ b o, MirrorsBus (Session.calls heap calls).heap b bus ∧
      (Session.calls heap calls).heap.devices[r]? = some o ∧ o = dev.copy b o.next o.prev ∧
      (Apart (Session.calls heap calls).busses →
        ∀ b ∈ (Session.calls heap calls).busses, ∀ d ∈ b.devices, d.address = dev.address →
          usbOpen (Session.calls heap calls).busses openDevice o = (openDevice d, none)) ∧
      ((∀ b ∈ (Session.calls heap calls).busses, ∀ d ∈ b.devices, d.address ≠ dev.address) →
        (usbOpen (Session.calls heap calls).busses openDevice o).1 = 0 ∧
          (usbOpen (Session.calls heap calls).busses openDevice o).2 ≠ none) := by
  have hright := (calls_inv heap calls).right t ht
  unfold Tree.Right at hright
  rw [if_neg (Nat.not_lt.2 hroom), (treeEffort_stop t.busses).2 hwhole] at hright
  obtain ⟨bus, hbus, dev, hdev, b, o, hb, ho, hc⟩ := hright.2.device hr
  have haddr : o.devStructAddr = dev.address.toInt64 := congrArg UsbDevice.devStructAddr hc
  refine ⟨bus, hbus, dev, hdev, b, o, hb, ho, hc, ?_, ?_⟩
  · intro hapart b hb d hd hda
    have hne : (Session.calls heap calls).busses ≠ [] := List.ne_nil_of_mem hb
    unfold usbOpen
    rw [if_neg hne, haddr, ← hda, deviceAt_eq_some hapart hb hd]
  · intro hno
    unfold usbOpen
    split_ifs with hnil
    · exact ⟨rfl, nofun⟩
    · rw [haddr, deviceAt_eq_none hno]
      exact ⟨rfl, nofun⟩

/-- A device with one configuration, which has no interfaces. -/
def plainDevice (address : UInt64) : Libusb.Device where
  address := address
  filename := "001"
  descriptor := ⟨18, 1, 0x0200, 0, 0, 0, 64, 0x5345, 0x1234, 0, 0, 0, 0, 1⟩
  config := some ⟨[⟨9, 2, 9, 0, 1, 0, 0x80, 50, none, ⟨0, none, nofun⟩⟩], rfl⟩
  devnum := 200
  numChildren := 0

theorem plainDevice_whole (address : UInt64) : (plainDevice address).Whole := by
  intro c hc
  rw [List.mem_singleton.1 hc]
  rfl

/-- Of two devices one is unplugged, and another is plugged in. -/
def plugged : List Libusb.Bus := [⟨"bus-0", [plainDevice 0x1000, plainDevice 0x2000], 0⟩]

def replugged : List Libusb.Bus := [⟨"bus-0", [plainDevice 0x3000, plainDevice 0x2000], 0⟩]

def replugging : Session := .calls ⟨[], []⟩ [(plugged, 20), (replugged, 20)]

theorem replugging_apart : Apart replugging.busses := by
  show List.Nodup [(0x3000 : UInt64), 0x2000]
  decide

/-- The second device of the first tree is still opened. -/
theorem tree_device_opens_plugged : ∃ bus ∈ plugged, ∃ dev ∈ bus.devices, ∃ b o, MirrorsBus replugging.heap b bus ∧
    replugging.heap.devices[1]? = some o ∧ o = dev.copy b o.next o.prev ∧
    (∀ b ∈ replugging.busses, ∀ d ∈ b.devices, d.address = dev.address →
      usbOpen replugging.busses (fun d => d.address.toInt64) o = (d.address.toInt64, none)) ∧
    ((∀ b ∈ replugging.busses, ∀ d ∈ b.devices, d.address ≠ dev.address) →
      (usbOpen replugging.busses (fun d => d.address.toInt64) o).1 = 0 ∧
        (usbOpen replugging.busses (fun d => d.address.toInt64) o).2 ≠ none) := by
  have hwhole : ∀ bus ∈ plugged, ∀ dev ∈ bus.devices, dev.Whole := by
    intro bus hbus dev hdev
    rw [List.mem_singleton.1 hbus] at hdev
    have hdev : dev = plainDevice 0x1000 ∨ dev = plainDevice 0x2000 := by simpa using hdev
    rcases hdev with rfl | rfl
    · exact plainDevice_whole _
    · exact plainDevice_whole _
  have hreaches : replugging.heap.Reaches (treeOf plugged 20 ⟨[], []⟩).main 1 :=
    ⟨[0], [0, 1], 0, ⟨none, none, some "bus-0", some 0, 0, some 0⟩, by decide +kernel, by decide,
      by decide +kernel, by decide +kernel, by decide⟩
  obtain ⟨bus, hbus, dev, hdev, b, o, hb, ho, hc, hopens, hnone⟩ :=
    tree_device_opens ⟨[], []⟩ [(plugged, 20), (replugged, 20)] (fun d => d.address.toInt64)
      (t := treeOf plugged 20 ⟨[], []⟩) List.mem_cons_self (by decide +kernel) hwhole hreaches
  exact ⟨bus, hbus, dev, hdev, b, o, hb, ho, hc, hopens replugging_apart, hnone⟩

end OwonVds.Usb
