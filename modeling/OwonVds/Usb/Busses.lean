import OwonVds.Lib.Budget
import OwonVds.Lib.Segment

/-!
# The tree of the USB busses

`usb_get_busses` copies the lists of libusb into Java objects: a doubly linked list of busses, each with a doubly linked
list of devices, each with its descriptors. A bus or device object is made when the one before it is filled, and the
descriptors of a device are attached to it when they are complete, so that they are values here.

The copy can end early. The virtual machine has room for a number of objects (the budget): where it makes none, the
function returns `NULL` with an error. And libusb may have left a pointer to an array `NULL` that is to have elements:
then the function returns the tree as far as it is.
-/

namespace OwonVds.Usb

open Budget

/-! ## The structures of libusb -/

/-- A C array of `n` elements, or `NULL`. -/
abbrev Pointer (α : Type) (n : Nat) := Option { l : List α // l.length = n }

/-- The extra descriptors: `extralen` bytes, or `NULL`. -/
structure Extra where
  extralen : Int32
  extra : Option (List UInt8)
  sized : ∀ bytes, extra = some bytes → (bytes.length : Int) = extralen.toInt

namespace Libusb

structure EndpointDescriptor where
  bLength : UInt8
  bDescriptorType : UInt8
  bEndpointAddress : UInt8
  bmAttributes : UInt8
  wMaxPacketSize : UInt16
  bInterval : UInt8
  bRefresh : UInt8
  bSynchAddress : UInt8
  extra : Extra

structure InterfaceDescriptor where
  bLength : UInt8
  bDescriptorType : UInt8
  bInterfaceNumber : UInt8
  bAlternateSetting : UInt8
  bNumEndpoints : UInt8
  bInterfaceClass : UInt8
  bInterfaceSubClass : UInt8
  bInterfaceProtocol : UInt8
  iInterface : UInt8
  endpoint : Pointer EndpointDescriptor bNumEndpoints.toNat
  extra : Extra

structure Interface where
  numAltsetting : Int32
  altsetting : Pointer InterfaceDescriptor numAltsetting.toInt.toNat

structure ConfigDescriptor where
  bLength : UInt8
  bDescriptorType : UInt8
  wTotalLength : UInt16
  bNumInterfaces : UInt8
  bConfigurationValue : UInt8
  iConfiguration : UInt8
  bmAttributes : UInt8
  maxPower : UInt8
  interface : Pointer Interface bNumInterfaces.toNat
  extra : Extra

structure DeviceDescriptor where
  bLength : UInt8
  bDescriptorType : UInt8
  bcdUSB : UInt16
  bDeviceClass : UInt8
  bDeviceSubClass : UInt8
  bDeviceProtocol : UInt8
  bMaxPacketSize0 : UInt8
  idVendor : UInt16
  idProduct : UInt16
  bcdDevice : UInt16
  iManufacturer : UInt8
  iProduct : UInt8
  iSerialNumber : UInt8
  bNumConfigurations : UInt8

/-- A device, with the address of its structure. -/
structure Device where
  address : UInt64
  filename : String
  descriptor : DeviceDescriptor
  config : Pointer ConfigDescriptor descriptor.bNumConfigurations.toNat
  devnum : UInt8
  numChildren : UInt8

structure Bus where
  dirname : String
  devices : List Device
  location : UInt32

end Libusb

/-! ## The objects of Java -/

structure UsbEndpointDescriptor where
  bLength : Int8
  bDescriptorType : Int8
  bEndpointAddress : Int8
  bmAttributes : Int8
  wMaxPacketSize : Int16
  bInterval : Int8
  bRefresh : Int8
  bSynchAddress : Int8
  extra : Option (List Int8)
  extralen : Int32
  deriving DecidableEq

structure UsbInterfaceDescriptor where
  bLength : Int8
  bDescriptorType : Int8
  bInterfaceNumber : Int8
  bAlternateSetting : Int8
  bNumEndpoints : Int8
  bInterfaceClass : Int8
  bInterfaceSubClass : Int8
  bInterfaceProtocol : Int8
  iInterface : Int8
  endpoint : List UsbEndpointDescriptor
  extra : Option (List Int8)
  extralen : Int32
  deriving DecidableEq

structure UsbInterface where
  altsetting : List UsbInterfaceDescriptor
  numAltsetting : Int32
  deriving DecidableEq

structure UsbConfigDescriptor where
  bLength : Int8
  bDescriptorType : Int8
  wTotalLength : Int16
  bNumInterfaces : Int8
  bConfigurationValue : Int8
  iConfiguration : Int8
  bmAttributes : Int8
  maxPower : Int8
  interface : List UsbInterface
  extra : Option (List Int8)
  extralen : Int32
  deriving DecidableEq

structure UsbDeviceDescriptor where
  bLength : Int8
  bDescriptorType : Int8
  bcdUSB : Int16
  bDeviceClass : Int8
  bDeviceSubClass : Int8
  bDeviceProtocol : Int8
  bMaxPacketSize0 : Int8
  idVendor : Int16
  idProduct : Int16
  bcdDevice : Int16
  iManufacturer : Int8
  iProduct : Int8
  iSerialNumber : Int8
  bNumConfigurations : Int8
  deriving DecidableEq

/-- The index of an object in its list on the heap. -/
abbrev Ref := Nat

structure UsbDevice where
  next : Option Ref
  prev : Option Ref
  filename : Option String
  bus : Option Ref
  descriptor : Option UsbDeviceDescriptor
  config : Option (List UsbConfigDescriptor)
  devnum : Int8
  numChildren : Int8
  devStructAddr : Int64
  deriving DecidableEq

structure UsbBus where
  next : Option Ref
  prev : Option Ref
  dirname : Option String
  devices : Option Ref
  location : Int64
  rootDev : Option Ref
  deriving DecidableEq

/-- The objects as their constructors leave them. -/
def UsbDevice.blank : UsbDevice := ⟨none, none, none, none, none, none, 0, 0, 0⟩

def UsbBus.blank : UsbBus := ⟨none, none, none, none, 0, none⟩

structure Heap where
  busses : List UsbBus
  devices : List UsbDevice
  deriving DecidableEq

/-! ## The copy -/

/-- How the function ends early: it returns `NULL`, or the tree that it has made so far. -/
inductive Stop
  | null (error : String)
  | main (error : Option String)
  deriving DecidableEq

/-- The objects, and `main_usb_busObj`. -/
structure Copying where
  heap : Heap
  main : Option Ref
  deriving DecidableEq

abbrev Build := EStateM Stop (Metered Copying)

/-- `NewObject`, for an object that is a value here. -/
def newObject (error : String) : Build Unit := spend (.null error)

/-- `NewObjectArray`; a negative size is an exception. -/
def newObjectArray (n : Int) (error : String) : Build Unit := if n < 0 then throw (.null error) else spend (.null error)

def newBus (error : String) : Build Ref := do
  spend (.null error)
  let s ← current
  update fun s => { s with heap := { s.heap with busses := s.heap.busses ++ [.blank] } }
  return s.heap.busses.length

def newDevice (error : String) : Build Ref := do
  spend (.null error)
  let s ← current
  update fun s => { s with heap := { s.heap with devices := s.heap.devices ++ [.blank] } }
  return s.heap.devices.length

def setBus (r : Ref) (f : UsbBus → UsbBus) : Build Unit :=
  update fun s => { s with heap := { s.heap with busses := s.heap.busses.modify r f } }

def setDevice (r : Ref) (f : UsbDevice → UsbDevice) : Build Unit :=
  update fun s => { s with heap := { s.heap with devices := s.heap.devices.modify r f } }

/-- The object for the next structure of a list, if there is one. -/
def newNext {α : Type} (next : List α) (new : Build Ref) : Build (Option Ref) :=
  match next with
  | [] => return none
  | _ :: _ => return some (← new)

/-- A loop over an array: where it is `NULL`, the first element ends the copy. -/
def elements {α β : Type} {n : Nat} (null : Stop) (error : String) (f : α → Build β) (p : Pointer α n) :
    Build (List β) :=
  match p with
  | some as => as.1.mapM fun a => do
    newObject error
    f a
  | none => if n = 0 then return [] else throw null

def jbytes (bytes : List UInt8) : List Int8 := bytes.map UInt8.toInt8

def endpoint (e : Libusb.EndpointDescriptor) : UsbEndpointDescriptor where
  bLength := e.bLength.toInt8
  bDescriptorType := e.bDescriptorType.toInt8
  bEndpointAddress := e.bEndpointAddress.toInt8
  bmAttributes := e.bmAttributes.toInt8
  wMaxPacketSize := e.wMaxPacketSize.toInt16
  bInterval := e.bInterval.toInt8
  bRefresh := e.bRefresh.toInt8
  bSynchAddress := e.bSynchAddress.toInt8
  extra := e.extra.extra.map jbytes
  extralen := e.extra.extralen

def fillInterfaceDescriptor (a : Libusb.InterfaceDescriptor) (usbEpDescObjArray : List UsbEndpointDescriptor) :
    UsbInterfaceDescriptor where
  bLength := a.bLength.toInt8
  bDescriptorType := a.bDescriptorType.toInt8
  bInterfaceNumber := a.bInterfaceNumber.toInt8
  bAlternateSetting := a.bAlternateSetting.toInt8
  bNumEndpoints := a.bNumEndpoints.toInt8
  bInterfaceClass := a.bInterfaceClass.toInt8
  bInterfaceSubClass := a.bInterfaceSubClass.toInt8
  bInterfaceProtocol := a.bInterfaceProtocol.toInt8
  iInterface := a.iInterface.toInt8
  endpoint := usbEpDescObjArray
  extra := a.extra.extra.map jbytes
  extralen := a.extra.extralen

def interfaceDescriptor (a : Libusb.InterfaceDescriptor) : Build UsbInterfaceDescriptor := do
  newObjectArray a.bNumEndpoints.toNat "shared library error: Error NewObject (usb_epDescObjArray)"
  return fillInterfaceDescriptor a (← elements (.main none) "shared library error: Error NewObject (usb_epDescObj)"
    (fun e => return endpoint e) a.endpoint)

def fillInterface (i : Libusb.Interface) (usbIntDescObjArray : List UsbInterfaceDescriptor) : UsbInterface where
  altsetting := usbIntDescObjArray
  numAltsetting := i.numAltsetting

def interface (i : Libusb.Interface) : Build UsbInterface := do
  newObjectArray i.numAltsetting.toInt "shared library error: Error NewObject (usb_intDescObjArray)"
  return fillInterface i (← elements (.main none) "shared library error: Error NewObject (usb_intDescObj)"
    interfaceDescriptor i.altsetting)

def fillConfigDescriptor (c : Libusb.ConfigDescriptor) (usbIntObjArray : List UsbInterface) : UsbConfigDescriptor where
  bLength := c.bLength.toInt8
  bDescriptorType := c.bDescriptorType.toInt8
  wTotalLength := c.wTotalLength.toInt16
  bNumInterfaces := c.bNumInterfaces.toInt8
  bConfigurationValue := c.bConfigurationValue.toInt8
  iConfiguration := c.iConfiguration.toInt8
  bmAttributes := c.bmAttributes.toInt8
  maxPower := c.maxPower.toInt8
  interface := usbIntObjArray
  extra := c.extra.extra.map jbytes
  extralen := c.extra.extralen

def configDescriptor (c : Libusb.ConfigDescriptor) : Build UsbConfigDescriptor := do
  newObjectArray c.bNumInterfaces.toNat "shared library error: Error NewObject (usb_intObjArray)"
  return fillConfigDescriptor c (← elements (.main none) "shared library error: Error NewObject (usb_intObj)" interface
    c.interface)

def deviceDescriptor (d : Libusb.DeviceDescriptor) : UsbDeviceDescriptor where
  bLength := d.bLength.toInt8
  bDescriptorType := d.bDescriptorType.toInt8
  bcdUSB := d.bcdUSB.toInt16
  bDeviceClass := d.bDeviceClass.toInt8
  bDeviceSubClass := d.bDeviceSubClass.toInt8
  bDeviceProtocol := d.bDeviceProtocol.toInt8
  bMaxPacketSize0 := d.bMaxPacketSize0.toInt8
  idVendor := d.idVendor.toInt16
  idProduct := d.idProduct.toInt16
  bcdDevice := d.bcdDevice.toInt16
  iManufacturer := d.iManufacturer.toInt8
  iProduct := d.iProduct.toInt8
  iSerialNumber := d.iSerialNumber.toInt8
  bNumConfigurations := d.bNumConfigurations.toInt8

def configDescriptors (dev : Libusb.Device) : Build (List UsbConfigDescriptor) := do
  newObjectArray dev.descriptor.bNumConfigurations.toNat "shared library error: Error NewObject 6"
  elements (.main (some "shared library error: dev->config == NULL"))
    "shared library error: Error NewObject (usb_confDescObj)" configDescriptor dev.config

/-- What is filled in of a device before its descriptors. -/
def fillDevice (usbBusObj : Ref) (usbDevObjNext usbDevObjPrev : Option Ref) (dev : Libusb.Device) (o : UsbDevice) :
    UsbDevice :=
  { o with
    next := usbDevObjNext
    prev := usbDevObjPrev
    bus := some usbBusObj
    filename := some dev.filename
    devnum := dev.devnum.toInt8
    numChildren := dev.numChildren.toInt8
    devStructAddr := dev.address.toInt64 }

/-- The loop over the devices of a bus: it returns `main_usb_devObj`. -/
def usbDevices (usbBusObj : Ref) : List Libusb.Device → Option Ref → Option Ref → Option Ref → Build (Option Ref)
  | [], _, _, mainUsbDevObj => return mainUsbDevObj
  | dev :: devs, usbDevObj, usbDevObjPrev, mainUsbDevObj => do
    let (obj, mainUsbDevObj) ← match usbDevObj with
      | some obj => pure (obj, mainUsbDevObj)
      | none => do
        let obj ← newDevice "shared library error: Error NewObject (usb_devObj)"
        pure (obj, some obj)
    let usbDevObjNext ← newNext devs (newDevice "shared library error: Error NewObject (usb_devObj_next)")
    setDevice obj (fillDevice usbBusObj usbDevObjNext usbDevObjPrev dev)
    newObject "shared library error: Error NewObject (usb_devDescObj)"
    setDevice obj fun o => { o with descriptor := some (deviceDescriptor dev.descriptor) }
    let usbConfDescObjArray ← configDescriptors dev
    setDevice obj fun o => { o with config := some usbConfDescObjArray }
    usbDevices usbBusObj devs usbDevObjNext (some obj) mainUsbDevObj

/-- The loop over the busses. -/
def usbBusses : List Libusb.Bus → Option Ref → Option Ref → Build Unit
  | [], _, _ => return
  | bus :: busses, usbBusObj, usbBusObjPrev => do
    let obj ← match usbBusObj with
      | some obj => pure obj
      | none => do
        let obj ← newBus "shared library error: Error NewObject (usb_busObj)"
        update fun s => { s with main := some obj }
        pure obj
    let usbBusObjNext ← newNext busses (newBus "shared library error: Error NewObject (usb_busObj_next)")
    setBus obj fun o =>
      { o with
        next := usbBusObjNext
        prev := usbBusObjPrev
        dirname := some bus.dirname
        location := bus.location.toUInt64.toInt64 }
    let mainUsbDevObj ← usbDevices obj bus.devices none none none
    setBus obj fun o => { o with devices := mainUsbDevObj, rootDev := mainUsbDevObj }
    usbBusses busses usbBusObjNext (some obj)

/-- What a call returned, and the error string and the objects after it. -/
structure Returned where
  main : Option Ref
  error : Option String
  heap : Heap
  deriving DecidableEq

def usbGetBusses (busses : List Libusb.Bus) (room : Nat) (heap : Heap) : Returned :=
  match usbBusses busses none none ⟨⟨heap, none⟩, room⟩ with
  | .ok () s => ⟨s.state.main, none, s.state.heap⟩
  | .error (.null error) s => ⟨none, some error, s.state.heap⟩
  | .error (.main error) s => ⟨s.state.main, error, s.state.heap⟩

/-! ## Opening a device -/

/-- The device at an address, the first one found. -/
def deviceAt (busses : List Libusb.Bus) (address : Int64) : Option Libusb.Device :=
  (busses.flatMap Libusb.Bus.devices).find? fun dev => dev.address.toInt64 = address

/-- The wrapper of `usb_open`, for a device object: the handle, or 0, and the error string. -/
def usbOpen (busses : List Libusb.Bus) (openDevice : Libusb.Device → Int64) (o : UsbDevice) : Int64 × Option String :=
  if busses = [] then (0, some "shared library error: busses is null")
  else
    match deviceAt busses o.devStructAddr with
    | some dev => (openDevice dev, none)
    | none => (0, some "shared library error: no device with dev.devnum found on busses")

end OwonVds.Usb
