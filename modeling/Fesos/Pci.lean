/-
Device discovery on the PCI bus: buses/pci.c.

A configuration space is read in 32-bit registers; it does not change while the
bus is scanned.  `pciDevices` lists the slots filled so far and `inits` is a history
variable, the driver initialisations in the order in which they were made.  A driver
is named by its index in the registry, as its address names it in the source.
-/

import Mathlib.Data.List.Flatten
import Mathlib.Data.List.Nodup
import Mathlib.Data.List.Range
import Fesos.Machine

set_option autoImplicit false

namespace Fesos

open List

def maxPciDevices : Nat := 64

structure PciLocation where
  bus : Nat
  device : Nat
  function : Nat
  deriving DecidableEq, Repr

/-- `read(bus, device, function, offset, 4)`. -/
abbrev ConfigSpace : Type := PciLocation → Nat → UInt32

/-- The fields of `pci_header_t` that discovery looks at. -/
structure PciHeader where
  vendorId : UInt16
  deviceId : UInt16
  progIf : UInt8
  subclass : UInt8
  classCode : UInt8
  headerType : UInt8
  deriving DecidableEq, Repr

structure PciDevice where
  location : PciLocation
  vendorId : UInt16
  deviceId : UInt16
  classCode : UInt8
  subclass : UInt8
  progIf : UInt8
  bars : List UInt32
  deriving DecidableEq, Repr

inductive PciDriver where
  | classDriver (classCode subclass progIf : UInt8)
  | specificDevice (deviceId vendorId : UInt16)
  deriving DecidableEq, Repr

structure PciSlot where
  device : PciDevice
  driver : Option Nat
  deriving DecidableEq, Repr

structure PciInit where
  slot : Nat
  driver : Nat
  deriving DecidableEq, Repr

structure Pci where
  pciDevices : List PciSlot
  inits : List PciInit
  deriving DecidableEq, Repr

namespace Pci

def boot : Pci :=
  { pciDevices := []
    inits := [] }

/-- The packed header laid over four little-endian registers. -/
def pciGetHeader (config : ConfigSpace) (location : PciLocation) : PciHeader :=
  { vendorId := (config location 0x0).toUInt16
    deviceId := (config location 0x0 >>> 16).toUInt16
    progIf := (config location 0x8 >>> 8).toUInt8
    subclass := (config location 0x8 >>> 16).toUInt8
    classCode := (config location 0x8 >>> 24).toUInt8
    headerType := (config location 0xC >>> 16).toUInt8 }

def newDevice (config : ConfigSpace) (location : PciLocation) : PciDevice :=
  let header := pciGetHeader config location
  { location := location
    vendorId := header.vendorId
    deviceId := header.deviceId
    classCode := header.classCode
    subclass := header.subclass
    progIf := header.progIf
    bars := (List.range 6).map (fun i => config location (0x10 + i * 0x4)) }

def driverMatches (device : PciDevice) : PciDriver → Bool
  | .specificDevice deviceId vendorId =>
    deviceId == device.deviceId && vendorId == device.vendorId
  | .classDriver classCode subclass progIf =>
    classCode == device.classCode && subclass == device.subclass && progIf == device.progIf

/-- `pci_devices[slot].driver = driver; driver->init(device);` -/
def bind (pci : Pci) (slot driver : Nat) : Pci :=
  { pciDevices := pci.pciDevices.modify slot (fun entry => { entry with driver := some driver })
    inits := pci.inits ++ [⟨slot, driver⟩] }

/-- The loop over the registry.  It goes on after a match. -/
def bindDrivers (slot : Nat) (device : PciDevice) : List PciDriver → Nat → Pci → Pci
  | [], _, pci => pci
  | driver :: drivers, driverIndex, pci =>
    bindDrivers slot device drivers (driverIndex + 1)
      (if driverMatches device driver then pci.bind slot driverIndex else pci)

/-- `pci_devices[pci_devices_count++]` is filled and offered to the drivers. -/
def addDevice (registry : List PciDriver) (device : PciDevice) (pci : Pci) : Pci :=
  bindDrivers pci.pciDevices.length device registry 0
    { pci with pciDevices := pci.pciDevices ++ [⟨device, none⟩] }

section Scan

variable (registry : List PciDriver) (config : ConfigSpace)

/-- The innermost loop; the flag says that the whole scan returned because the array
is full.  Leaving a multi-function device after its function 0 is the source's test. -/
def discoverFunctions (bus device : Nat) : List Nat → Pci → Bool × Pci
  | [], pci => (false, pci)
  | function :: functions, pci =>
    let location : PciLocation := ⟨bus, device, function⟩
    let header := pciGetHeader config location
    if header.vendorId = 0xFFFF then discoverFunctions bus device functions pci
    else if maxPciDevices ≤ pci.pciDevices.length then (true, pci)
    else
      let added := addDevice registry (newDevice config location) pci
      if function = 0 ∧ header.headerType &&& 0x80 ≠ 0 then (false, added)
      else discoverFunctions bus device functions added

def discoverDevices (bus : Nat) : List Nat → Pci → Bool × Pci
  | [], pci => (false, pci)
  | device :: devices, pci =>
    let scanned := discoverFunctions registry config bus device (List.range 8) pci
    if scanned.1 then scanned else discoverDevices bus devices scanned.2

def discoverBuses : List Nat → Pci → Bool × Pci
  | [], pci => (false, pci)
  | bus :: buses, pci =>
    let scanned := discoverDevices registry config bus (List.range 32) pci
    if scanned.1 then scanned else discoverBuses buses scanned.2

def pciDiscover (pci : Pci) : Pci := (discoverBuses registry config (List.range 256) pci).2

end Scan

/-- The loop over the slots; a bound one is skipped. -/
def initUnbound (registry : List PciDriver) : List Nat → Pci → Pci
  | [], pci => pci
  | deviceIndex :: indices, pci =>
    match pci.pciDevices[deviceIndex]? with
    | none => initUnbound registry indices pci
    | some slot =>
      if slot.driver.isSome then initUnbound registry indices pci
      else initUnbound registry indices (bindDrivers deviceIndex slot.device registry 0 pci)

def pciInitUnboundDevices (registry : List PciDriver) (pci : Pci) : Pci :=
  initUnbound registry (List.range pci.pciDevices.length) pci

/-! ### What the scan visits -/

def Present (config : ConfigSpace) (location : PciLocation) : Prop :=
  (pciGetHeader config location).vendorId ≠ 0xFFFF

instance (config : ConfigSpace) : DecidablePred (Present config) :=
  fun _ => inferInstanceAs (Decidable (_ ≠ _))

def MultiFunction (config : ConfigSpace) (location : PciLocation) : Prop :=
  (pciGetHeader config location).headerType &&& 0x80 ≠ 0

instance (config : ConfigSpace) : DecidablePred (MultiFunction config) :=
  fun _ => inferInstanceAs (Decidable (_ ≠ _))

def deviceLocations (bus device : Nat) (functions : List Nat) : List PciLocation :=
  functions.map (fun function => ⟨bus, device, function⟩)

def locations : List PciLocation :=
  (List.range 256).flatMap (fun bus => (List.range 32).flatMap
    (fun device => deviceLocations bus device (List.range 8)))

def presentFunctions (config : ConfigSpace) : List PciLocation :=
  locations.filter (fun location => Present config location)

/-- The functions of one device that the scan records. -/
def visits (config : ConfigSpace) (bus device : Nat) : List Nat → List PciLocation
  | [] => []
  | function :: functions =>
    let location : PciLocation := ⟨bus, device, function⟩
    if Present config location then
      location ::
        (if function = 0 ∧ MultiFunction config location then []
        else visits config bus device functions)
    else visits config bus device functions

def allVisits (config : ConfigSpace) : List PciLocation :=
  (List.range 256).flatMap (fun bus => (List.range 32).flatMap
    (fun device => visits config bus device (List.range 8)))

def addAll (registry : List PciDriver) (config : ConfigSpace) : List PciLocation → Pci → Pci
  | [], pci => pci
  | location :: rest, pci =>
    addAll registry config rest (addDevice registry (newDevice config location) pci)

/-! ### The scan records what it visits -/

section Recording

variable {registry : List PciDriver} {config : ConfigSpace}

theorem bind_devices (pci : Pci) (slot driver : Nat) :
    (pci.bind slot driver).pciDevices.map PciSlot.device = pci.pciDevices.map PciSlot.device := by
  unfold bind
  apply ext_getElem?
  intro index
  rw [List.getElem?_map, List.getElem?_map, List.getElem?_modify]
  cases pci.pciDevices[index]? with
  | none => rfl
  | some entry =>
    simp only [Option.map_some]
    split <;> rfl

theorem bindDrivers_devices (slot : Nat) (device : PciDevice) (drivers : List PciDriver)
    (driverIndex : Nat) (pci : Pci) :
    (bindDrivers slot device drivers driverIndex pci).pciDevices.map PciSlot.device =
      pci.pciDevices.map PciSlot.device := by
  induction drivers generalizing driverIndex pci with
  | nil => rfl
  | cons driver drivers ih =>
    rw [bindDrivers, ih]
    split
    · exact bind_devices pci slot driverIndex
    · rfl

theorem addDevice_devices (device : PciDevice) (pci : Pci) :
    (addDevice registry device pci).pciDevices.map PciSlot.device =
      pci.pciDevices.map PciSlot.device ++ [device] := by
  unfold addDevice
  rw [bindDrivers_devices, map_append]
  rfl

theorem addDevice_length (device : PciDevice) (pci : Pci) :
    (addDevice registry device pci).pciDevices.length = pci.pciDevices.length + 1 := by
  have recorded : (addDevice registry device pci).pciDevices.map PciSlot.device = _ :=
    addDevice_devices device pci
  have lengths := congrArg List.length recorded
  rw [length_map, length_append, length_map] at lengths
  exact lengths

theorem addAll_append (first second : List PciLocation) (pci : Pci) :
    addAll registry config (first ++ second) pci =
      addAll registry config second (addAll registry config first pci) := by
  induction first generalizing pci with
  | nil => rfl
  | cons location rest ih => exact ih _

theorem addAll_devices (visited : List PciLocation) (pci : Pci) :
    (addAll registry config visited pci).pciDevices.map PciSlot.device =
      pci.pciDevices.map PciSlot.device ++ visited.map (newDevice config) := by
  induction visited generalizing pci with
  | nil => rw [map_nil, append_nil]; rfl
  | cons location rest ih =>
    rw [addAll, ih, addDevice_devices, append_assoc]
    rfl

theorem addAll_length (visited : List PciLocation) (pci : Pci) :
    (addAll registry config visited pci).pciDevices.length =
      pci.pciDevices.length + visited.length := by
  have recorded : (addAll registry config visited pci).pciDevices.map PciSlot.device = _ :=
    addAll_devices visited pci
  have lengths := congrArg List.length recorded
  rw [length_map, length_append, length_map, length_map] at lengths
  exact lengths

theorem discoverFunctions_eq (bus device : Nat) (functions : List Nat) (pci : Pci)
    (room : pci.pciDevices.length + (visits config bus device functions).length ≤ maxPciDevices) :
    discoverFunctions registry config bus device functions pci =
      (false, addAll registry config (visits config bus device functions) pci) := by
  induction functions generalizing pci with
  | nil => rfl
  | cons function functions ih =>
    by_cases present : Present config ⟨bus, device, function⟩
    · have answers : ¬ (pciGetHeader config ⟨bus, device, function⟩).vendorId = 0xFFFF := present
      rw [visits, if_pos present] at room ⊢
      rw [length_cons] at room
      have notFull : ¬ maxPciDevices ≤ pci.pciDevices.length := by omega
      rw [discoverFunctions]
      simp only [if_neg answers, if_neg notFull]
      by_cases leaves : function = 0 ∧ MultiFunction config ⟨bus, device, function⟩
      · have stops : function = 0 ∧
            (pciGetHeader config ⟨bus, device, function⟩).headerType &&& 0x80 ≠ 0 := leaves
        rw [if_pos stops, if_pos leaves]
        rfl
      have goesOn : ¬ (function = 0 ∧
          (pciGetHeader config ⟨bus, device, function⟩).headerType &&& 0x80 ≠ 0) := leaves
      rw [if_neg leaves] at room
      rw [if_neg goesOn, if_neg leaves, ih]
      · rfl
      · rw [addDevice_length]
        omega
    · have silent : (pciGetHeader config ⟨bus, device, function⟩).vendorId = 0xFFFF :=
        not_not.mp present
      rw [visits, if_neg present] at room ⊢
      rw [discoverFunctions]
      simp only [if_pos silent]
      exact ih pci room

theorem discoverDevices_eq (bus : Nat) (devices : List Nat) (pci : Pci)
    (room : pci.pciDevices.length + (devices.flatMap
      (fun device => visits config bus device (List.range 8))).length ≤ maxPciDevices) :
    discoverDevices registry config bus devices pci =
      (false, addAll registry config (devices.flatMap
        (fun device => visits config bus device (List.range 8))) pci) := by
  induction devices generalizing pci with
  | nil => rfl
  | cons device devices ih =>
    rw [flatMap_cons, length_append] at room
    rw [discoverDevices, discoverFunctions_eq _ _ _ _ (by omega), flatMap_cons,
      addAll_append]
    exact ih _ (by rw [addAll_length]; omega)

theorem discoverBuses_eq (buses : List Nat) (pci : Pci)
    (room : pci.pciDevices.length + (buses.flatMap (fun bus => (List.range 32).flatMap
      (fun device => visits config bus device (List.range 8)))).length ≤ maxPciDevices) :
    discoverBuses registry config buses pci =
      (false, addAll registry config (buses.flatMap (fun bus => (List.range 32).flatMap
        (fun device => visits config bus device (List.range 8)))) pci) := by
  induction buses generalizing pci with
  | nil => rfl
  | cons bus buses ih =>
    rw [flatMap_cons, length_append] at room
    rw [discoverBuses, discoverDevices_eq _ _ _ (by omega), flatMap_cons, addAll_append]
    exact ih _ (by rw [addAll_length]; omega)

theorem pciDiscover_eq (room : (allVisits config).length ≤ maxPciDevices) :
    pciDiscover registry config boot = addAll registry config (allVisits config) boot := by
  unfold pciDiscover
  rw [discoverBuses_eq _ _ (by rw [boot, length_nil, Nat.zero_add]; exact room)]
  rfl

theorem pciDiscover_devices (room : (allVisits config).length ≤ maxPciDevices) :
    (pciDiscover registry config boot).pciDevices.map PciSlot.device =
      (allVisits config).map (newDevice config) := by
  rw [pciDiscover_eq room, addAll_devices]
  rfl

end Recording

/-! ### Which functions are visited -/

section Visits

variable {config : ConfigSpace}

variable {bus device : Nat}

theorem visits_above_zero {functions : List Nat}
    (above : ∀ function ∈ functions, function ≠ 0) :
    visits config bus device functions =
      (deviceLocations bus device functions).filter (fun location => Present config location) := by
  induction functions with
  | nil => rfl
  | cons function functions ih =>
    have stays : ¬ (function = 0 ∧ MultiFunction config ⟨bus, device, function⟩) :=
      fun both => above function mem_cons_self both.1
    have rest := ih (fun other member => above other (mem_cons_of_mem _ member))
    rw [visits, deviceLocations, map_cons]
    by_cases present : Present config ⟨bus, device, function⟩
    · rw [if_pos present, if_neg stays, filter_cons_of_pos (by simpa using present), rest]
      rfl
    · rw [if_neg present, filter_cons_of_neg (by simpa using present), rest]
      rfl

theorem visits_sublist (bus device : Nat) (functions : List Nat) :
    (visits config bus device functions).Sublist
      ((deviceLocations bus device functions).filter (fun location => Present config location)) := by
  induction functions with
  | nil => exact List.Sublist.refl _
  | cons function functions ih =>
    rw [visits, deviceLocations, map_cons]
    by_cases present : Present config ⟨bus, device, function⟩
    · rw [if_pos present, filter_cons_of_pos (by simpa using present)]
      apply List.Sublist.cons_cons
      split
      · exact nil_sublist _
      · exact ih
    · rw [if_neg present, filter_cons_of_neg (by simpa using present)]
      exact ih

theorem allVisits_sublist : (allVisits config).Sublist (presentFunctions config) := by
  unfold allVisits presentFunctions locations
  rw [filter_flatMap]
  apply List.Sublist.flatMap_right
  intro bus _busIn
  rw [filter_flatMap]
  apply List.Sublist.flatMap_right
  intro device _deviceIn
  exact visits_sublist bus device (List.range 8)

variable {location : PciLocation}

theorem mem_deviceLocations {functions : List Nat} :
    location ∈ deviceLocations bus device functions ↔
      location.bus = bus ∧ location.device = device ∧ location.function ∈ functions := by
  unfold deviceLocations
  rw [mem_map]
  constructor
  · intro found
    obtain ⟨function, member, same⟩ := found
    rw [← same]
    exact ⟨rfl, rfl, member⟩
  · intro facts
    obtain ⟨sameBus, sameDevice, member⟩ := facts
    exact ⟨location.function, member, by rw [← sameBus, ← sameDevice]⟩

theorem mem_locations :
    location ∈ locations ↔
      location.bus < 256 ∧ location.device < 32 ∧ location.function < 8 := by
  unfold locations
  simp only [mem_flatMap, mem_range, mem_deviceLocations]
  constructor
  · intro found
    obtain ⟨bus, busLow, device, deviceLow, sameBus, sameDevice, functionLow⟩ := found
    rw [sameBus, sameDevice]
    exact ⟨busLow, deviceLow, functionLow⟩
  · intro bounds
    exact ⟨location.bus, bounds.1, location.device, bounds.2.1, rfl, rfl, bounds.2.2⟩

theorem locations_nodup : locations.Nodup := by
  unfold locations
  apply nodup_flatMap.mpr
  constructor
  · intro bus _busIn
    apply nodup_flatMap.mpr
    constructor
    · intro device _deviceIn
      apply List.Nodup.map _ nodup_range
      intro left right same
      injection same
    · apply nodup_range.imp
      intro left right different location inLeft inRight
      have leftDevice := (mem_deviceLocations.mp inLeft).2.1
      have rightDevice := (mem_deviceLocations.mp inRight).2.1
      exact different (leftDevice.symm.trans rightDevice)
  · apply nodup_range.imp
    intro left right different location inLeft inRight
    obtain ⟨_, _, inLeftDevice⟩ := mem_flatMap.mp inLeft
    obtain ⟨_, _, inRightDevice⟩ := mem_flatMap.mp inRight
    have leftBus := (mem_deviceLocations.mp inLeftDevice).1
    have rightBus := (mem_deviceLocations.mp inRightDevice).1
    exact different (leftBus.symm.trans rightBus)

/-- The device of a location has a function 0 with the multi-function bit. -/
def MultiFunctionDevice (config : ConfigSpace) (location : PciLocation) : Prop :=
  Present config { location with function := 0 } ∧
    MultiFunction config { location with function := 0 }

theorem mem_visits_device :
    location ∈ visits config bus device (List.range 8) ↔
      location.bus = bus ∧ location.device = device ∧ location.function < 8 ∧
        Present config location ∧
        (location.function = 0 ∨ ¬ MultiFunctionDevice config location) := by
  have order : List.range 8 = 0 :: List.range' 1 7 := by decide
  have above : ∀ function ∈ List.range' 1 7, function ≠ 0 := by decide
  have upper : ∀ function, function ∈ List.range' 1 7 ↔ 0 < function ∧ function < 8 := by
    intro function
    rw [mem_range'_1]
    omega
  have others : ∀ location : PciLocation,
      location ∈ visits config bus device (List.range' 1 7) ↔
        location.bus = bus ∧ location.device = device ∧
          (0 < location.function ∧ location.function < 8) ∧ Present config location := by
    intro location
    rw [visits_above_zero above, mem_filter, mem_deviceLocations, decide_eq_true_eq, upper]
    tauto
  rw [order, visits]
  obtain ⟨locationBus, locationDevice, function⟩ := location
  unfold MultiFunctionDevice
  by_cases present : Present config ⟨bus, device, 0⟩
  · rw [if_pos present]
    by_cases multi : MultiFunction config ⟨bus, device, 0⟩
    · rw [if_pos ⟨rfl, multi⟩, mem_singleton, PciLocation.mk.injEq]
      constructor
      · intro same
        obtain ⟨sameBus, sameDevice, sameFunction⟩ := same
        subst sameBus sameDevice sameFunction
        exact ⟨rfl, rfl, (by decide : 0 < 8), present, Or.inl rfl⟩
      · intro facts
        obtain ⟨sameBus, sameDevice, _low, _present, first | single⟩ := facts
        · exact ⟨sameBus, sameDevice, first⟩
        · subst sameBus sameDevice
          exact absurd ⟨present, multi⟩ single
    · rw [if_neg (fun both => multi both.2), mem_cons, others, PciLocation.mk.injEq]
      constructor
      · intro either
        rcases either with ⟨sameBus, sameDevice, sameFunction⟩ | ⟨sameBus, sameDevice, low, here⟩
        · subst sameBus sameDevice sameFunction
          exact ⟨rfl, rfl, (by decide : 0 < 8), present, Or.inl rfl⟩
        · subst sameBus sameDevice
          exact ⟨rfl, rfl, low.2, here, Or.inr (fun both => multi both.2)⟩
      · intro facts
        obtain ⟨sameBus, sameDevice, low, here, _single⟩ := facts
        simp only at sameBus sameDevice low
        by_cases first : function = 0
        · exact Or.inl ⟨sameBus, sameDevice, first⟩
        · exact Or.inr ⟨sameBus, sameDevice, ⟨by simp only; omega, low⟩, here⟩
  · rw [if_neg present, others]
    constructor
    · intro facts
      obtain ⟨sameBus, sameDevice, low, here⟩ := facts
      simp only at sameBus sameDevice
      subst sameBus sameDevice
      exact ⟨rfl, rfl, low.2, here, Or.inr (fun both => present both.1)⟩
    · intro facts
      obtain ⟨sameBus, sameDevice, low, here, _single⟩ := facts
      simp only at sameBus sameDevice low
      refine ⟨sameBus, sameDevice, ⟨?_, low⟩, here⟩
      apply Nat.pos_of_ne_zero
      intro first
      simp only at first
      subst sameBus sameDevice first
      exact present here

theorem mem_allVisits :
    location ∈ allVisits config ↔
      location ∈ presentFunctions config ∧
        (location.function = 0 ∨ ¬ MultiFunctionDevice config location) := by
  unfold allVisits presentFunctions
  simp only [mem_flatMap, mem_range, mem_visits_device, mem_filter, mem_locations,
    decide_eq_true_eq]
  constructor
  · intro found
    obtain ⟨bus, busLow, device, deviceLow, sameBus, sameDevice, functionLow, present, single⟩ :=
      found
    rw [sameBus, sameDevice]
    exact ⟨⟨⟨busLow, deviceLow, functionLow⟩, present⟩, single⟩
  · intro facts
    obtain ⟨⟨⟨busLow, deviceLow, functionLow⟩, present⟩, single⟩ := facts
    exact ⟨location.bus, busLow, location.device, deviceLow, rfl, rfl, functionLow, present, single⟩

end Visits

/-! ### Complete discovery -/

/-- Every function of a multi-function device is recorded, and what is recorded are
present functions, each once and with its own registers. -/
structure Discovered (config : ConfigSpace) (pci : Pci) : Prop where
  complete : ∀ location ∈ presentFunctions config, MultiFunctionDevice config location →
    newDevice config location ∈ pci.pciDevices.map PciSlot.device
  once : (pci.pciDevices.map (fun slot => slot.device.location)).Nodup
  own : ∀ slot ∈ pci.pciDevices, slot.device.location ∈ presentFunctions config ∧
    slot.device = newDevice config slot.device.location

theorem presentFunctions_nodup (config : ConfigSpace) : (presentFunctions config).Nodup :=
  locations_nodup.filter _

/-- Discovery is complete exactly when no multi-function device has a function above 0. -/
theorem pci_discover_complete_iff (config : ConfigSpace) (registry : List PciDriver)
    (few : (presentFunctions config).length ≤ maxPciDevices) :
    Discovered config (pciDiscover registry config boot) ↔
      ∀ location ∈ presentFunctions config, MultiFunctionDevice config location →
        location.function = 0 := by
  have room : (allVisits config).length ≤ maxPciDevices :=
    allVisits_sublist.length_le.trans few
  have recorded : (pciDiscover registry config boot).pciDevices.map PciSlot.device =
      (allVisits config).map (newDevice config) := pciDiscover_devices room
  constructor
  · intro discovered location present multi
    have member := discovered.complete location present multi
    rw [recorded] at member
    obtain ⟨visited, inVisits, same⟩ := mem_map.mp member
    have sameLocation : visited = location := congrArg PciDevice.location same
    rw [sameLocation] at inVisits
    rcases (mem_allVisits.mp inVisits).2 with first | single
    · exact first
    · exact absurd multi single
  · intro onlyFirst
    have places : (pciDiscover registry config boot).pciDevices.map
        (fun slot => slot.device.location) = allVisits config := by
      have projected := congrArg (List.map PciDevice.location) recorded
      rw [map_map, map_map] at projected
      exact projected.trans (map_id _)
    refine ⟨?_, ?_, ?_⟩
    · intro location present multi
      rw [recorded]
      apply mem_map_of_mem
      exact mem_allVisits.mpr ⟨present, Or.inl (onlyFirst location present multi)⟩
    · rw [places]
      exact (presentFunctions_nodup config).sublist allVisits_sublist
    · intro slot member
      have inRecorded := mem_map_of_mem (f := PciSlot.device) member
      rw [recorded] at inRecorded
      obtain ⟨visited, inVisits, same⟩ := mem_map.mp inRecorded
      have sameLocation : visited = slot.device.location := congrArg PciDevice.location same
      rw [← sameLocation]
      exact ⟨(mem_allVisits.mp inVisits).1, same.symm⟩

def busWith (answering : List PciLocation) (registers : Nat → UInt32) : ConfigSpace :=
  fun location offset => if location ∈ answering then registers offset else 0xFFFFFFFF

theorem present_busWith {answering : List PciLocation} {registers : Nat → UInt32}
    {location : PciLocation} (here : Present (busWith answering registers) location) :
    location ∈ answering := by
  by_contra silent
  apply here
  unfold pciGetHeader busWith
  simp only [if_neg silent]
  decide

theorem presentFunctions_busWith (answering : List PciLocation) (registers : Nat → UInt32) :
    (presentFunctions (busWith answering registers)).length ≤ answering.length := by
  apply List.Subperm.length_le
  apply (presentFunctions_nodup _).subperm
  intro location member
  have here := (mem_filter.mp member).2
  exact present_busWith (of_decide_eq_true here)

theorem mem_presentFunctions {config : ConfigSpace} {location : PciLocation} :
    location ∈ presentFunctions config ↔ location ∈ locations ∧ Present config location := by
  unfold presentFunctions
  rw [mem_filter, decide_eq_true_eq]

def multiFunctionRegisters : Nat → UInt32 := fun _ => 0x01860000

theorem pci_discover_complete_iff_first :
    Discovered (busWith [⟨0, 31, 0⟩] multiFunctionRegisters)
      (pciDiscover [] (busWith [⟨0, 31, 0⟩] multiFunctionRegisters) boot) := by
  have few := presentFunctions_busWith [⟨0, 31, 0⟩] multiFunctionRegisters
  apply (pci_discover_complete_iff _ [] (few.trans (by decide))).mpr
  intro location member _multi
  have here := present_busWith (mem_presentFunctions.mp member).2
  rw [mem_singleton.mp here]

/-- Function 1 of a multi-function device is present and is not recorded. -/
theorem pci_discover_misses_function :
    (presentFunctions (busWith [⟨0, 31, 0⟩, ⟨0, 31, 1⟩] multiFunctionRegisters)).length ≤
      maxPciDevices ∧
    (⟨0, 31, 1⟩ : PciLocation) ∈
      presentFunctions (busWith [⟨0, 31, 0⟩, ⟨0, 31, 1⟩] multiFunctionRegisters) ∧
    MultiFunctionDevice (busWith [⟨0, 31, 0⟩, ⟨0, 31, 1⟩] multiFunctionRegisters) ⟨0, 31, 1⟩ ∧
    ¬ Discovered (busWith [⟨0, 31, 0⟩, ⟨0, 31, 1⟩] multiFunctionRegisters)
      (pciDiscover [] (busWith [⟨0, 31, 0⟩, ⟨0, 31, 1⟩] multiFunctionRegisters) boot) := by
  have few : (presentFunctions (busWith [⟨0, 31, 0⟩, ⟨0, 31, 1⟩] multiFunctionRegisters)).length ≤
      maxPciDevices := (presentFunctions_busWith _ _).trans (by decide)
  have present : (⟨0, 31, 1⟩ : PciLocation) ∈
      presentFunctions (busWith [⟨0, 31, 0⟩, ⟨0, 31, 1⟩] multiFunctionRegisters) :=
    mem_presentFunctions.mpr ⟨mem_locations.mpr (by decide), by decide⟩
  have multi : MultiFunctionDevice
      (busWith [⟨0, 31, 0⟩, ⟨0, 31, 1⟩] multiFunctionRegisters) ⟨0, 31, 1⟩ :=
    ⟨by decide, by decide⟩
  refine ⟨few, present, multi, ?_⟩
  intro discovered
  have member := discovered.complete _ present multi
  rw [pciDiscover_devices (allVisits_sublist.length_le.trans few)] at member
  obtain ⟨visited, inVisits, same⟩ := mem_map.mp member
  have sameLocation : visited = ⟨0, 31, 1⟩ := congrArg PciDevice.location same
  rw [sameLocation] at inVisits
  rcases (mem_allVisits.mp inVisits).2 with first | single
  · cases first
  · exact single multi

end Pci

end Fesos
