import OwonVds.Usb.Busses

/-!
# How the copy ends

For each structure of libusb the object it is copied to (`copy`) and what the copying takes (`effort`): how many objects
are made, and whether a `NULL` array stops it. The loops over the devices and over the busses are followed object by
object (`usbDevices_ends`, `usbBusses_ends`): a complete loop appends the copies, one that stops leaves the busses
before (`stoppedBusses`), and none changes an object that was there. A copy that has room for all its objects is
complete iff no array that is to have elements is `NULL` (`treeEffort_stop`).
-/

namespace OwonVds.Usb

open Budget Linked

/-! ## The copies, and what they take -/

section Elements

variable {α β : Type} {n : Nat}

def copies (copy : α → β) (p : Pointer α n) : List β :=
  match p with
  | some as => as.1.map copy
  | none => []

def arrayEffort (n : Int) (error : String) : Effort Stop := if n < 0 then .stopped (.null error) else .one

def elementsEffort (null : Stop) (effort : α → Effort Stop) (p : Pointer α n) : Effort Stop :=
  match p with
  | some as => .all (fun a => Effort.one.andThen (effort a)) as.1
  | none => if n = 0 then .nothing else .stopped null

end Elements

namespace Libusb

def InterfaceDescriptor.copy (a : InterfaceDescriptor) : UsbInterfaceDescriptor :=
  fillInterfaceDescriptor a (copies Usb.endpoint a.endpoint)

def Interface.copy (i : Interface) : UsbInterface := fillInterface i (copies InterfaceDescriptor.copy i.altsetting)

def ConfigDescriptor.copy (c : ConfigDescriptor) : UsbConfigDescriptor :=
  fillConfigDescriptor c (copies Interface.copy c.interface)

def InterfaceDescriptor.effort (a : InterfaceDescriptor) : Effort Stop :=
  (arrayEffort a.bNumEndpoints.toNat "shared library error: Error NewObject (usb_epDescObjArray)").andThen
    (elementsEffort (.main none) (fun _ => .nothing) a.endpoint)

def Interface.effort (i : Interface) : Effort Stop :=
  (arrayEffort i.numAltsetting.toInt "shared library error: Error NewObject (usb_intDescObjArray)").andThen
    (elementsEffort (.main none) InterfaceDescriptor.effort i.altsetting)

def ConfigDescriptor.effort (c : ConfigDescriptor) : Effort Stop :=
  (arrayEffort c.bNumInterfaces.toNat "shared library error: Error NewObject (usb_intObjArray)").andThen
    (elementsEffort (.main none) Interface.effort c.interface)

/-- The descriptors of a device. -/
def Device.effort (dev : Device) : Effort Stop :=
  Effort.one.andThen ((arrayEffort dev.descriptor.bNumConfigurations.toNat
    "shared library error: Error NewObject 6").andThen
      (elementsEffort (.main (some "shared library error: dev->config == NULL")) ConfigDescriptor.effort dev.config))

/-- The object of a device. -/
def Device.copy (bus : Ref) (next prev : Option Ref) (dev : Device) : UsbDevice where
  next := next
  prev := prev
  filename := some dev.filename
  bus := some bus
  descriptor := some (deviceDescriptor dev.descriptor)
  config := some (copies ConfigDescriptor.copy dev.config)
  devnum := dev.devnum.toInt8
  numChildren := dev.numChildren.toInt8
  devStructAddr := dev.address.toInt64

end Libusb

/-- The object that is made for the rest of a list. -/
def roomEffort {α : Type} : List α → Effort Stop
  | [] => .nothing
  | _ :: _ => .one

def headRef {α : Type} (k : Ref) : List α → Option Ref
  | [] => none
  | _ :: _ => some k

def blanks {α β : Type} (blank : β) : List α → List β
  | [] => []
  | _ :: _ => [blank]

def devicesEffort : List Libusb.Device → Effort Stop
  | [] => .nothing
  | dev :: devs => (roomEffort devs).andThen (dev.effort.andThen (devicesEffort devs))

/-- The objects of the devices of a bus, the first at `k`. -/
def deviceCopies (bus k : Ref) : Option Ref → List Libusb.Device → List UsbDevice
  | _, [] => []
  | prev, dev :: devs => dev.copy bus (headRef (k + 1) devs) prev :: deviceCopies bus (k + 1) (some k) devs

/-! ## The descriptors -/

section Descriptors

variable {α β : Type} {n : Nat} {X : Stop → Copying → Prop} {s : Copying} {R : Copying → Prop}

theorem newObjectArray_ends {m : Int} {error : String} (hX : ∀ e, X (.null e) s) (hR : R s) :
    Ends X (newObjectArray m error) s (arrayEffort m error) (fun _ t => t = s) R := by
  unfold newObjectArray arrayEffort
  split_ifs
  · exact ends_throw _ hR
  · exact ends_spend (hX error)

theorem elements_ends {null : Stop} {error : String} {f : α → Build β} {p : Pointer α n} {copy : α → β}
    {effort : α → Effort Stop} (hX : ∀ e, X (.null e) s) (hR : R s)
    (hf : ∀ a, Ends X (f a) s (effort a) (fun b t => b = copy a ∧ t = s) R) :
    Ends X (elements null error f p) s (elementsEffort null effort p) (fun bs t => bs = copies copy p ∧ t = s) R := by
  cases p with
  | some as =>
    refine ends_mapM fun a _ => (ends_spend (hX error)).bind ?_
    rintro - t rfl
    exact hf a
  | none =>
    unfold elements elementsEffort
    split_ifs
    · exact ends_pure ⟨rfl, rfl⟩
    · exact ends_throw _ hR

/-- An array, and an object that is filled with its elements. -/
theorem filled_ends {γ : Type} {m : Int} {null : Stop} {error error' : String} {f : α → Build β} {p : Pointer α n}
    {copy : α → β} {effort : α → Effort Stop} {fill : List β → γ} (hX : ∀ e, X (.null e) s) (hR : R s)
    (hf : ∀ a, Ends X (f a) s (effort a) (fun b t => b = copy a ∧ t = s) R) :
    Ends X (do newObjectArray m error; return fill (← elements null error' f p)) s
      ((arrayEffort m error).andThen (elementsEffort null effort p)) (fun c t => c = fill (copies copy p) ∧ t = s)
      R := by
  refine (newObjectArray_ends hX hR).bind ?_
  rintro - t rfl
  rw [← Effort.andThen_nothing (elementsEffort null effort p)]
  refine (elements_ends hX hR hf).bind ?_
  rintro bs t ⟨rfl, rfl⟩
  exact ends_pure ⟨rfl, rfl⟩

variable (hX : ∀ e, X (.null e) s) (hR : R s)

include hX hR

theorem interfaceDescriptor_ends (a : Libusb.InterfaceDescriptor) :
    Ends X (interfaceDescriptor a) s a.effort (fun v t => v = a.copy ∧ t = s) R :=
  filled_ends hX hR fun _ => ends_pure ⟨rfl, rfl⟩

theorem interface_ends (i : Libusb.Interface) : Ends X (interface i) s i.effort (fun v t => v = i.copy ∧ t = s) R :=
  filled_ends hX hR (interfaceDescriptor_ends hX hR)

theorem configDescriptor_ends (c : Libusb.ConfigDescriptor) :
    Ends X (configDescriptor c) s c.effort (fun v t => v = c.copy ∧ t = s) R :=
  filled_ends hX hR (interface_ends hX hR)

theorem configDescriptors_ends (dev : Libusb.Device) : Ends X (configDescriptors dev) s
    ((arrayEffort dev.descriptor.bNumConfigurations.toNat "shared library error: Error NewObject 6").andThen
      (elementsEffort (.main (some "shared library error: dev->config == NULL")) Libusb.ConfigDescriptor.effort
        dev.config)) (fun v t => v = copies Libusb.ConfigDescriptor.copy dev.config ∧ t = s) R := by
  refine (newObjectArray_ends hX hR).bind ?_
  rintro - t rfl
  exact elements_ends hX hR (configDescriptor_ends hX hR)

end Descriptors

/-! ## The devices of a bus -/

def Copying.withDevices (s : Copying) (l : List UsbDevice) : Copying := { s with heap := { s.heap with devices := l } }

theorem modify_length {α : Type} (l : List α) (a : α) (l' : List α) (f : α → α) :
    (l ++ a :: l').modify l.length f = l ++ f a :: l' := by
  induction l with
  | nil => rfl
  | cons b l ih => rw [List.cons_append, List.length_cons, List.modify_succ_cons, ih, List.cons_append]

/-- Only device objects after the first ones have changed. -/
structure DevicesKept (old : List UsbDevice) (s t : Copying) : Prop where
  busses : t.heap.busses = s.heap.busses
  main : t.main = s.main
  devices : old <+: t.heap.devices

theorem DevicesKept.withDevices {old : List UsbDevice} {s : Copying} {l : List UsbDevice} (h : old <+: l) :
    DevicesKept old s (s.withDevices l) := ⟨rfl, rfl, h⟩

theorem newDevice_ends {X : Stop → Copying → Prop} {s : Copying} {R : Copying → Prop} {error : String}
    (hX : ∀ e, X (.null e) s) : Ends X (newDevice error) s .one
      (fun r t => r = s.heap.devices.length ∧ t = s.withDevices (s.heap.devices ++ [.blank])) R := by
  have h : Ends X (newDevice error) s (Effort.one.andThen (Effort.nothing.andThen (Effort.nothing.andThen .nothing)))
      (fun r t => r = s.heap.devices.length ∧ t = s.withDevices (s.heap.devices ++ [.blank])) R := by
    refine (ends_spend (hX error)).bind ?_
    rintro - t rfl
    refine ends_current.bind ?_
    rintro a u ⟨rfl, rfl⟩
    refine (ends_update _).bind ?_
    rintro - v rfl
    exact ends_pure ⟨rfl, rfl⟩
  simpa only [Effort.andThen_nothing] using h

theorem newNext_ends {α : Type} {X : Stop → Copying → Prop} {s s' : Copying} {R : Copying → Prop} {new : Build Ref}
    {k : Ref} (h : Ends X new s .one (fun r t => r = k ∧ t = s') R) (next : List α) :
    Ends X (newNext next new) s (roomEffort next)
      (fun r t => r = headRef k next ∧ t = if next.isEmpty then s else s') R := by
  cases next with
  | nil => exact ends_pure ⟨rfl, rfl⟩
  | cons a next =>
    show Ends X _ s .one _ R
    rw [← Effort.andThen_nothing .one]
    refine h.bind ?_
    rintro r t ⟨rfl, rfl⟩
    exact ends_pure ⟨rfl, rfl⟩

/-- How the loop over the devices ends early: with the old objects as they were. -/
abbrev DevicesFail (old : List UsbDevice) (s : Copying) (e : Stop) (t : Copying) : Prop :=
  (∃ error, e = .null error) ∧ DevicesKept old s t

/-- The loop for a device that has an object. -/
theorem usbDevices_cons (bus k : Ref) (dev : Libusb.Device) (devs : List Libusb.Device) (prev main : Option Ref) :
    usbDevices bus (dev :: devs) (some k) prev main = (do
      let next ← newNext devs (newDevice "shared library error: Error NewObject (usb_devObj_next)")
      setDevice k (fillDevice bus next prev dev)
      newObject "shared library error: Error NewObject (usb_devDescObj)"
      setDevice k fun o => { o with descriptor := some (deviceDescriptor dev.descriptor) }
      let usbConfDescObjArray ← configDescriptors dev
      setDevice k fun o => { o with config := some usbConfDescObjArray }
      usbDevices bus devs next (some k) main) := rfl

section Device

variable {s : Copying} {old : List UsbDevice}

/-- Whatever is done to the object and after it, the old ones are kept. -/
theorem devicesKept_append (o : UsbDevice) (l : List UsbDevice) : DevicesKept old s (s.withDevices (old ++ o :: l)) :=
  .withDevices (List.prefix_append ..)

theorem devicesFail_append (o : UsbDevice) (l : List UsbDevice) (e : String) :
    DevicesFail old s (.null e) (s.withDevices (old ++ o :: l)) :=
  ⟨⟨e, rfl⟩, devicesKept_append o l⟩

/-- A field of the object is set. -/
theorem setDevice_ends {X : Stop → Copying → Prop} {R : Copying → Prop} (o : UsbDevice) (l : List UsbDevice)
    (f : UsbDevice → UsbDevice) : Ends X (setDevice old.length f) (s.withDevices (old ++ o :: l)) .nothing
      (fun _ t => t = s.withDevices (old ++ f o :: l)) R := by
  refine (ends_update _).mono (fun _ _ => id) ?_ (fun _ => id)
  rintro - t rfl
  show s.withDevices ((old ++ o :: l).modify old.length f) = _
  rw [modify_length]

/-- The object for the next device is made while that of this device is blank. -/
theorem nextDevice_ends (devs : List Libusb.Device) (R : Copying → Prop) : Ends (DevicesFail old s)
    (newNext devs (newDevice "shared library error: Error NewObject (usb_devObj_next)"))
    (s.withDevices (old ++ [.blank])) (roomEffort devs) (fun r t => r = headRef (old.length + 1) devs ∧
      t = s.withDevices (old ++ .blank :: blanks .blank devs)) R := by
  refine (newNext_ends (newDevice_ends (devicesFail_append .blank [])) devs).mono (fun _ _ => id) ?_ (fun _ => id)
  rintro r t ⟨rfl, rfl⟩
  have hlen : (s.withDevices (old ++ [.blank])).heap.devices.length = old.length + 1 := List.length_append
  rw [hlen]
  refine ⟨rfl, ?_⟩
  cases devs with
  | nil => rfl
  | cons dev devs => exact congrArg s.withDevices (List.append_assoc ..)

end Device

theorem usbDevices_ends (bus : Ref) (devs : List Libusb.Device) (s : Copying) (old : List UsbDevice)
    (prev main : Option Ref) : Ends (DevicesFail old s) (usbDevices bus devs (headRef old.length devs) prev main)
      (s.withDevices (old ++ blanks .blank devs)) (devicesEffort devs)
      (fun a t => a = main ∧ t = s.withDevices (old ++ deviceCopies bus old.length prev devs)) (DevicesKept old s) := by
  induction devs generalizing old prev with
  | nil => exact ends_pure ⟨rfl, rfl⟩
  | cons dev devs ih =>
    have heff : devicesEffort (dev :: devs) = (roomEffort devs).andThen (Effort.nothing.andThen (Effort.one.andThen
        (Effort.nothing.andThen (((arrayEffort dev.descriptor.bNumConfigurations.toNat
          "shared library error: Error NewObject 6").andThen (elementsEffort
            (.main (some "shared library error: dev->config == NULL")) Libusb.ConfigDescriptor.effort
              dev.config)).andThen (Effort.nothing.andThen (devicesEffort devs)))))) := by
      simp only [Effort.nothing_andThen, devicesEffort, Libusb.Device.effort, Effort.andThen_assoc]
    show Ends _ (usbDevices bus (dev :: devs) (some old.length) prev main) (s.withDevices (old ++ [.blank])) _ _ _
    rw [usbDevices_cons, heff]
    refine (nextDevice_ends devs _).bind ?_
    rintro next t ⟨rfl, rfl⟩
    refine (setDevice_ends _ _ _).bind ?_
    rintro - t rfl
    refine (ends_spend (devicesFail_append _ _ _)).bind ?_
    rintro - t rfl
    refine (setDevice_ends _ _ _).bind ?_
    rintro - t rfl
    refine (configDescriptors_ends (devicesFail_append _ _) (devicesKept_append _ _) dev).bind ?_
    rintro confs t ⟨rfl, rfl⟩
    refine (setDevice_ends _ _ _).bind ?_
    rintro - t rfl
    -- the object is the copy of the device, and the loop goes on after it
    have hrest := ih (old ++ [dev.copy bus (headRef (old.length + 1) devs) prev]) (some old.length)
    rw [List.length_append, List.append_assoc, List.append_assoc] at hrest
    exact hrest.mono (fun e t ⟨he, hk⟩ => ⟨he, hk.busses, hk.main, (List.prefix_append ..).trans hk.devices⟩)
      (fun _ _ => id) fun t hk => ⟨hk.busses, hk.main, (List.prefix_append ..).trans hk.devices⟩

/-- The whole loop, with the object for the first device. -/
theorem usbDevices_none (bus : Ref) (devs : List Libusb.Device) (s : Copying) (old : List UsbDevice) :
    Ends (DevicesFail old s) (usbDevices bus devs none none none) (s.withDevices old)
      ((roomEffort devs).andThen (devicesEffort devs)) (fun a t => a = headRef old.length devs ∧
        t = s.withDevices (old ++ deviceCopies bus old.length none devs)) (DevicesKept old s) := by
  cases devs with
  | nil =>
    refine ends_pure ⟨rfl, ?_⟩
    show s.withDevices old = s.withDevices (old ++ [])
    rw [List.append_nil]
  | cons dev devs =>
    have hfirst : usbDevices bus (dev :: devs) none none none = (do
        let obj ← newDevice "shared library error: Error NewObject (usb_devObj)"
        usbDevices bus (dev :: devs) (some obj) none (some obj)) := by
      simp [usbDevices]
    rw [hfirst]
    have hfail : ∀ e, DevicesFail old s (.null e) (s.withDevices old) :=
      fun e => ⟨⟨e, rfl⟩, .withDevices List.prefix_rfl⟩
    refine (newDevice_ends hfail).bind ?_
    rintro obj t ⟨rfl, rfl⟩
    exact usbDevices_ends bus (dev :: devs) s old none (some old.length)

/-! ## The busses -/

/-- The object of a bus. -/
def Libusb.Bus.copy (next prev devices : Option Ref) (bus : Libusb.Bus) : UsbBus where
  next := next
  prev := prev
  dirname := some bus.dirname
  devices := devices
  location := bus.location.toUInt64.toInt64
  rootDev := devices

def Libusb.Bus.effort (bus : Libusb.Bus) : Effort Stop := (roomEffort bus.devices).andThen (devicesEffort bus.devices)

def bussesEffort : List Libusb.Bus → Effort Stop
  | [] => .nothing
  | bus :: busses => (roomEffort busses).andThen (bus.effort.andThen (bussesEffort busses))

/-- The objects of the busses, the first at `k`, with the first device at `j`. -/
def busCopies (k : Ref) (prev : Option Ref) (j : Ref) : List Libusb.Bus → List UsbBus
  | [] => []
  | bus :: busses => bus.copy (headRef (k + 1) busses) prev (headRef j bus.devices) ::
    busCopies (k + 1) (some k) (j + bus.devices.length) busses

/-- The objects of all their devices. -/
def treeDevices (k j : Ref) : List Libusb.Bus → List UsbDevice
  | [] => []
  | bus :: busses => deviceCopies k j none bus.devices ++ treeDevices (k + 1) (j + bus.devices.length) busses

/-- The objects of the busses where the copy stops: the bus with the device that it stops at has no devices, and the
next one is blank. -/
def stoppedBusses (k : Ref) (prev : Option Ref) (j : Ref) : List Libusb.Bus → List UsbBus
  | [] => []
  | bus :: busses =>
    if bus.effort.stop = none then bus.copy (headRef (k + 1) busses) prev (headRef j bus.devices) ::
      stoppedBusses (k + 1) (some k) (j + bus.devices.length) busses
    else bus.copy (headRef (k + 1) busses) prev none :: blanks .blank busses

/-- The objects of the devices of the busses before it. -/
def stoppedDevices (k j : Ref) : List Libusb.Bus → List UsbDevice
  | [] => []
  | bus :: busses =>
    if bus.effort.stop = none then
      deviceCopies k j none bus.devices ++ stoppedDevices (k + 1) (j + bus.devices.length) busses
    else []

theorem length_deviceCopies (bus k : Ref) (prev : Option Ref) (devs : List Libusb.Device) :
    (deviceCopies bus k prev devs).length = devs.length := by
  induction devs generalizing k prev with
  | nil => rfl
  | cons dev devs ih => rw [deviceCopies, List.length_cons, List.length_cons, ih]

theorem newBus_ends {X : Stop → Copying → Prop} {bs : List UsbBus} {ds : List UsbDevice} {main : Option Ref}
    {R : Copying → Prop} {error : String} (hX : ∀ e, X (.null e) ⟨⟨bs, ds⟩, main⟩) :
    Ends X (newBus error) ⟨⟨bs, ds⟩, main⟩ .one
      (fun r t => r = bs.length ∧ t = ⟨⟨bs ++ [.blank], ds⟩, main⟩) R := by
  have h : Ends X (newBus error) ⟨⟨bs, ds⟩, main⟩
      (Effort.one.andThen (Effort.nothing.andThen (Effort.nothing.andThen .nothing)))
      (fun r t => r = bs.length ∧ t = ⟨⟨bs ++ [.blank], ds⟩, main⟩) R := by
    refine (ends_spend (hX error)).bind ?_
    rintro - t rfl
    refine ends_current.bind ?_
    rintro a u ⟨rfl, rfl⟩
    refine (ends_update _).bind ?_
    rintro - v rfl
    exact ends_pure ⟨rfl, rfl⟩
  simpa only [Effort.andThen_nothing] using h

/-- How the loop over the busses fails: with the old objects as they were. -/
structure BussesFail (old : List UsbBus) (olds : List UsbDevice) (e : Stop) (t : Copying) : Prop where
  null : ∃ error, e = .null error
  busses : old <+: t.heap.busses
  devices : olds <+: t.heap.devices

/-- How it stops. -/
structure BussesStop (old : List UsbBus) (olds : List UsbDevice) (prev main : Option Ref) (busses : List Libusb.Bus)
    (t : Copying) : Prop where
  stoppedBusses : t.heap.busses = old ++ stoppedBusses old.length prev olds.length busses
  stoppedDevices : olds ++ stoppedDevices old.length olds.length busses <+: t.heap.devices
  main : t.main = main

/-- The loop for a bus that has an object. -/
theorem usbBusses_cons (k : Ref) (bus : Libusb.Bus) (busses : List Libusb.Bus) (prev : Option Ref) :
    usbBusses (bus :: busses) (some k) prev = (do
      let next ← newNext busses (newBus "shared library error: Error NewObject (usb_busObj_next)")
      setBus k fun o =>
        { o with
          next := next
          prev := prev
          dirname := some bus.dirname
          location := bus.location.toUInt64.toInt64 }
      let main ← usbDevices k bus.devices none none none
      setBus k fun o => { o with devices := main, rootDev := main }
      usbBusses busses next (some k)) := rfl

section Bus

variable {old : List UsbBus} {olds : List UsbDevice} {main : Option Ref}

theorem bussesFail_append (o : UsbBus) (l : List UsbBus) (e : String) :
    BussesFail old olds (.null e) ⟨⟨old ++ o :: l, olds⟩, main⟩ :=
  ⟨⟨e, rfl⟩, List.prefix_append .., List.prefix_rfl⟩

/-- A field of the object is set. -/
theorem setBus_ends {X : Stop → Copying → Prop} {R : Copying → Prop} (o : UsbBus) (l : List UsbBus)
    (ds : List UsbDevice) (f : UsbBus → UsbBus) : Ends X (setBus old.length f) ⟨⟨old ++ o :: l, ds⟩, main⟩ .nothing
      (fun _ t => t = ⟨⟨old ++ f o :: l, ds⟩, main⟩) R := by
  refine (ends_update _).mono (fun _ _ => id) ?_ (fun _ => id)
  rintro - t rfl
  show Copying.mk ⟨(old ++ o :: l).modify old.length f, ds⟩ main = _
  rw [modify_length]

/-- The object for the next bus is made while that of this bus is blank. -/
theorem nextBus_ends (busses : List Libusb.Bus) (R : Copying → Prop) : Ends (BussesFail old olds)
    (newNext busses (newBus "shared library error: Error NewObject (usb_busObj_next)"))
    ⟨⟨old ++ [.blank], olds⟩, main⟩ (roomEffort busses) (fun r t => r = headRef (old.length + 1) busses ∧
      t = ⟨⟨old ++ .blank :: blanks .blank busses, olds⟩, main⟩) R := by
  refine (newNext_ends (newBus_ends (bussesFail_append .blank [])) busses).mono (fun _ _ => id) ?_ (fun _ => id)
  rintro r t ⟨rfl, rfl⟩
  rw [List.length_append]
  refine ⟨rfl, ?_⟩
  cases busses with
  | nil => rfl
  | cons bus busses =>
    show Copying.mk ⟨old ++ [.blank] ++ [.blank], olds⟩ main = _
    rw [List.append_assoc]
    rfl

/-- The devices of a bus that has an object. -/
theorem busDevices_ends (bus : Libusb.Bus) (o : UsbBus) (l : List UsbBus) : Ends (BussesFail old olds)
    (usbDevices old.length bus.devices none none none) ⟨⟨old ++ o :: l, olds⟩, main⟩ bus.effort
    (fun a t => a = headRef olds.length bus.devices ∧
      t = ⟨⟨old ++ o :: l, olds ++ deviceCopies old.length olds.length none bus.devices⟩, main⟩)
    (fun t => t.heap.busses = old ++ o :: l ∧ olds <+: t.heap.devices ∧ t.main = main) := by
  refine (usbDevices_none old.length bus.devices ⟨⟨old ++ o :: l, olds⟩, main⟩ olds).mono ?_ (fun _ _ => id) ?_
  · rintro e t ⟨he, hk⟩
    refine ⟨he, ?_, hk.devices⟩
    rw [hk.busses]
    exact List.prefix_append ..
  · rintro t hk
    exact ⟨hk.busses, hk.devices, hk.main⟩

/-- The loop stops at a bus: its object has what was set before its devices. -/
theorem usbBusses_stopped {bus : Libusb.Bus} {e : Stop} (hstop : bus.effort.stop = some e) (busses : List Libusb.Bus)
    (prev : Option Ref) (Q : Unit → Copying → Prop) :
    Ends (BussesFail old olds) (usbBusses (bus :: busses) (some old.length) prev) ⟨⟨old ++ [.blank], olds⟩, main⟩
      (bussesEffort (bus :: busses)) Q (BussesStop old olds prev main (bus :: busses)) := by
  have heff : bussesEffort (bus :: busses) = (roomEffort busses).andThen (Effort.nothing.andThen bus.effort) := by
    rw [bussesEffort, Effort.nothing_andThen, Effort.andThen_of_some hstop]
  have hne : ¬ bus.effort.stop = none := by rw [hstop]; exact (fun h => by cases h)
  rw [usbBusses_cons, heff]
  refine (nextBus_ends busses _).bind ?_
  rintro next t ⟨rfl, rfl⟩
  refine (setBus_ends _ _ _ _).bind ?_
  rintro - t rfl
  refine ((busDevices_ends bus _ _).mono (fun _ _ => id) (fun _ _ => id) ?_).bind_stopped hstop
  rintro t ⟨hbs, hds, hmain⟩
  refine ⟨?_, ?_, hmain⟩
  · rw [hbs, stoppedBusses, if_neg hne]
    rfl
  · rw [stoppedDevices, if_neg hne, List.append_nil]
    exact hds

end Bus

theorem usbBusses_ends (busses : List Libusb.Bus) (old : List UsbBus) (olds : List UsbDevice) (prev main : Option Ref) :
    Ends (BussesFail old olds) (usbBusses busses (headRef old.length busses) prev)
      ⟨⟨old ++ blanks .blank busses, olds⟩, main⟩ (bussesEffort busses)
      (fun _ t => t = ⟨⟨old ++ busCopies old.length prev olds.length busses,
        olds ++ treeDevices old.length olds.length busses⟩, main⟩) (BussesStop old olds prev main busses) := by
  induction busses generalizing old olds prev with
  | nil =>
    refine ends_pure ?_
    show _ = Copying.mk ⟨old ++ [], olds ++ []⟩ main
    rw [List.append_nil olds]
    rfl
  | cons bus busses ih =>
    show Ends _ (usbBusses (bus :: busses) (some old.length) prev) ⟨⟨old ++ [.blank], olds⟩, main⟩ _ _ _
    cases hstop : bus.effort.stop with
    | some e => exact usbBusses_stopped hstop busses prev _
    | none =>
      have heff : bussesEffort (bus :: busses) = (roomEffort busses).andThen (Effort.nothing.andThen (bus.effort.andThen
          (Effort.nothing.andThen (bussesEffort busses)))) := by
        rw [bussesEffort, Effort.nothing_andThen, Effort.nothing_andThen]
      rw [usbBusses_cons, heff]
      refine (nextBus_ends busses _).bind ?_
      rintro next t ⟨rfl, rfl⟩
      refine (setBus_ends _ _ _ _).bind ?_
      rintro - t rfl
      refine ((busDevices_ends bus _ _).of_none hstop).bind ?_
      rintro a t ⟨rfl, rfl⟩
      refine (setBus_ends _ _ _ _).bind ?_
      rintro - t rfl
      -- the object is the copy of the bus, and the loop goes on after it
      have hrest := ih (old ++ [bus.copy (headRef (old.length + 1) busses) prev (headRef olds.length bus.devices)])
        (olds ++ deviceCopies old.length olds.length none bus.devices) (some old.length)
      rw [List.length_append, List.length_append, length_deviceCopies, List.append_assoc, List.append_assoc,
        List.append_assoc] at hrest
      refine hrest.mono ?_ (fun _ _ => id) ?_
      · rintro e t ⟨he, hbs, hds⟩
        exact ⟨he, (List.prefix_append ..).trans hbs, (List.prefix_append ..).trans hds⟩
      · rintro t ⟨hbs, hds, hmain⟩
        refine ⟨?_, ?_, hmain⟩
        · rw [hbs, stoppedBusses, if_pos hstop, List.length_append, List.length_append, length_deviceCopies,
            List.append_assoc]
          rfl
        · rw [List.length_append, List.length_append, length_deviceCopies, List.append_assoc] at hds
          rw [stoppedDevices, if_pos hstop]
          exact hds

/-! ## When a copy is complete -/

section Whole

variable {α : Type} {n : Nat}

/-- An array that is to have elements is there, and its elements are whole. -/
def Whole (whole : α → Prop) (p : Pointer α n) : Prop :=
  match p with
  | some as => ∀ a ∈ as.1, whole a
  | none => n = 0

theorem elementsEffort_stop {null : Stop} {effort : α → Effort Stop} {whole : α → Prop}
    (h : ∀ a, (effort a).stop = none ↔ whole a) (p : Pointer α n) :
    (elementsEffort null effort p).stop = none ↔ Whole whole p := by
  cases p with
  | some as =>
    refine Effort.all_stop_eq_none.trans (forall₂_congr fun a _ => ?_)
    exact Effort.andThen_stop_eq_none.trans ((and_iff_right rfl).trans (h a))
  | none =>
    unfold elementsEffort Whole
    split_ifs with hn
    · exact iff_of_true rfl hn
    · exact iff_of_false nofun hn

theorem arrayEffort_stop {m : Int} {error : String} : (arrayEffort m error).stop = none ↔ 0 ≤ m := by
  unfold arrayEffort
  split_ifs with hm
  · exact iff_of_false nofun (Int.not_le.2 hm)
  · exact iff_of_true rfl (Int.not_lt.1 hm)

end Whole

namespace Libusb

def InterfaceDescriptor.Whole (a : InterfaceDescriptor) : Prop := Usb.Whole (fun _ => True) a.endpoint

def Interface.Whole (i : Interface) : Prop :=
  0 ≤ i.numAltsetting.toInt ∧ Usb.Whole InterfaceDescriptor.Whole i.altsetting

def ConfigDescriptor.Whole (c : ConfigDescriptor) : Prop := Usb.Whole Interface.Whole c.interface

/-- No array of the device that is to have elements is `NULL`. -/
def Device.Whole (dev : Device) : Prop := Usb.Whole ConfigDescriptor.Whole dev.config

theorem InterfaceDescriptor.effort_stop (a : InterfaceDescriptor) : a.effort.stop = none ↔ a.Whole :=
  Effort.andThen_stop_eq_none.trans ((and_iff_right (arrayEffort_stop.2 (Int.natCast_nonneg _))).trans
    (elementsEffort_stop (fun _ => iff_of_true rfl trivial) a.endpoint))

theorem Interface.effort_stop (i : Interface) : i.effort.stop = none ↔ i.Whole :=
  Effort.andThen_stop_eq_none.trans
    (and_congr arrayEffort_stop (elementsEffort_stop InterfaceDescriptor.effort_stop i.altsetting))

theorem ConfigDescriptor.effort_stop (c : ConfigDescriptor) : c.effort.stop = none ↔ c.Whole :=
  Effort.andThen_stop_eq_none.trans ((and_iff_right (arrayEffort_stop.2 (Int.natCast_nonneg _))).trans
    (elementsEffort_stop Interface.effort_stop c.interface))

theorem Device.effort_stop (dev : Device) : dev.effort.stop = none ↔ dev.Whole :=
  Effort.andThen_stop_eq_none.trans ((and_iff_right rfl).trans (Effort.andThen_stop_eq_none.trans
    ((and_iff_right (arrayEffort_stop.2 (Int.natCast_nonneg _))).trans
      (elementsEffort_stop ConfigDescriptor.effort_stop dev.config))))

end Libusb

theorem roomEffort_stop {α : Type} (l : List α) : (roomEffort l).stop = none := by
  cases l <;> rfl

theorem devicesEffort_stop (devs : List Libusb.Device) :
    (devicesEffort devs).stop = none ↔ ∀ dev ∈ devs, dev.Whole := by
  induction devs with
  | nil => simp [devicesEffort, Effort.nothing]
  | cons dev devs ih =>
    simp [devicesEffort, Effort.andThen_stop_eq_none, roomEffort_stop, Libusb.Device.effort_stop, ih]

/-- What a call takes. -/
def treeEffort (busses : List Libusb.Bus) : Effort Stop := (roomEffort busses).andThen (bussesEffort busses)

/-- **A copy is complete**, where there is room for it, iff all devices are whole. -/
theorem treeEffort_stop (busses : List Libusb.Bus) :
    (treeEffort busses).stop = none ↔ ∀ bus ∈ busses, ∀ dev ∈ bus.devices, dev.Whole := by
  unfold treeEffort
  rw [Effort.andThen_stop_eq_none, and_iff_right (roomEffort_stop busses)]
  induction busses with
  | nil => simp [bussesEffort, Effort.nothing]
  | cons bus busses ih =>
    simp [bussesEffort, Effort.andThen_stop_eq_none, roomEffort_stop, Libusb.Bus.effort, devicesEffort_stop, ih]

end OwonVds.Usb
