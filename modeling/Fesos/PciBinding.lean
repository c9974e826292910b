/-
Binding drivers to devices, at discovery and later.

The loop over the registry goes on after a match, so each matching entry is
initialised and the last one stays in the slot.  A device is initialised at most
once, by the driver in its slot, as long as no device met by a loop has two matching
entries in the registry.
-/

import Fesos.Library.Runs
import Fesos.Pci

set_option autoImplicit false

namespace Fesos

open Library List

def maxPciDrivers : Nat := 64

def driversPciRegister (registry : List PciDriver) (driver : PciDriver) : Int × List PciDriver :=
  if maxPciDrivers ≤ registry.length then (-1, registry) else (0, registry ++ [driver])

namespace Pci

def initsOf (pci : Pci) (slot : Nat) : List PciInit :=
  pci.inits.filter (fun init => init.slot = slot)

/-- Each slot's device was initialised by the driver in the slot, once, and not at all
when there is none. -/
structure BoundOnce (pci : Pci) : Prop where
  recorded : ∀ init ∈ pci.inits, init.slot < pci.pciDevices.length
  once : ∀ index slot, pci.pciDevices[index]? = some slot →
    pci.initsOf index = (slot.driver.map (fun driver => ⟨index, driver⟩)).toList

/-- At most one entry of the registry matches a device. -/
def Unambiguous (registry : List PciDriver) (device : PciDevice) : Prop :=
  (registry.filter (driverMatches device)).length ≤ 1

instance (registry : List PciDriver) (device : PciDevice) :
    Decidable (Unambiguous registry device) :=
  inferInstanceAs (Decidable (_ ≤ _))

/-! ### One device -/

section Bind

variable {pci : Pci} {slot driver : Nat} {entry : PciSlot}

theorem bind_length (pci : Pci) (slot driver : Nat) :
    (pci.bind slot driver).pciDevices.length = pci.pciDevices.length :=
  length_modify _ _ _

theorem bind_getElem (pci : Pci) (slot driver index : Nat) :
    (pci.bind slot driver).pciDevices[index]? =
      if slot = index then pci.pciDevices[index]?.map (fun entry => { entry with driver := some driver })
      else pci.pciDevices[index]? := by
  unfold bind
  rw [List.getElem?_modify]
  by_cases same : slot = index
  · simp only [if_pos same]
    rfl
  · simp only [if_neg same]
    exact Option.map_id_apply

theorem bind_initsOf (pci : Pci) (slot driver index : Nat) :
    (pci.bind slot driver).initsOf index =
      pci.initsOf index ++ (if slot = index then [⟨slot, driver⟩] else []) := by
  unfold bind initsOf
  rw [filter_append]
  by_cases same : slot = index
  · simp [same]
  · simp [same]

theorem BoundOnce.bind (bound : pci.BoundOnce) (here : pci.pciDevices[slot]? = some entry)
    (unbound : entry.driver = none) : (pci.bind slot driver).BoundOnce := by
  obtain ⟨inRange, _⟩ := List.getElem?_eq_some_iff.mp here
  constructor
  · intro init member
    rw [bind_length]
    rcases mem_append.mp member with old | new
    · exact bound.recorded init old
    · rw [mem_singleton.mp new]
      exact inRange
  · intro index after atIndex
    rw [bind_getElem] at atIndex
    rw [bind_initsOf]
    by_cases same : slot = index
    · subst same
      rw [if_pos rfl, here, Option.map_some] at atIndex
      cases atIndex
      have before := bound.once slot entry here
      rw [unbound] at before
      rw [if_pos rfl, before]
      rfl
    · rw [if_neg same] at atIndex
      rw [if_neg same, append_nil]
      exact bound.once index after atIndex

def matching (device : PciDevice) : List PciDriver → Nat → List Nat
  | [], _ => []
  | driver :: drivers, driverIndex =>
    if driverMatches device driver then driverIndex :: matching device drivers (driverIndex + 1)
    else matching device drivers (driverIndex + 1)

theorem matching_length (device : PciDevice) (drivers : List PciDriver) (driverIndex : Nat) :
    (matching device drivers driverIndex).length =
      (drivers.filter (driverMatches device)).length := by
  induction drivers generalizing driverIndex with
  | nil => rfl
  | cons driver drivers ih =>
    rw [matching]
    by_cases hit : driverMatches device driver = true
    · rw [if_pos hit, filter_cons_of_pos hit, length_cons, length_cons, ih]
    · rw [if_neg hit, filter_cons_of_neg hit, ih]

theorem bindDrivers_eq (slot : Nat) (device : PciDevice) (drivers : List PciDriver)
    (driverIndex : Nat) (pci : Pci) :
    bindDrivers slot device drivers driverIndex pci =
      (matching device drivers driverIndex).foldl (fun pci driver => pci.bind slot driver) pci := by
  induction drivers generalizing driverIndex pci with
  | nil => rfl
  | cons driver drivers ih =>
    rw [bindDrivers, ih, matching]
    by_cases hit : driverMatches device driver = true
    · rw [if_pos hit, if_pos hit]
      rfl
    · rw [if_neg hit, if_neg hit]

theorem bindDrivers_unambiguous (pci : Pci) (slot : Nat) {registry : List PciDriver}
    {device : PciDevice} (single : Unambiguous registry device) :
    bindDrivers slot device registry 0 pci = pci ∨
      ∃ driver, bindDrivers slot device registry 0 pci = pci.bind slot driver := by
  rw [bindDrivers_eq]
  have count := matching_length device registry 0
  unfold Unambiguous at single
  cases hits : matching device registry 0 with
  | nil => exact Or.inl rfl
  | cons first others =>
    rw [hits, length_cons] at count
    have noOthers : others = [] := length_eq_zero_iff.mp (by omega)
    rw [noOthers]
    exact Or.inr ⟨first, rfl⟩

theorem BoundOnce.bindDrivers (bound : pci.BoundOnce)
    (here : pci.pciDevices[slot]? = some entry) (unbound : entry.driver = none)
    {registry : List PciDriver} {device : PciDevice} (single : Unambiguous registry device) :
    (bindDrivers slot device registry 0 pci).BoundOnce := by
  rcases bindDrivers_unambiguous pci slot single with same | ⟨driver, once⟩
  · rw [same]
    exact bound
  · rw [once]
    exact bound.bind here unbound

end Bind

/-! ### Discovery -/

section Discovery

variable {registry : List PciDriver} {config : ConfigSpace} {pci : Pci}

theorem BoundOnce.boot : Pci.boot.BoundOnce where
  recorded := fun _ member => absurd member not_mem_nil
  once := by
    intro index slot impossible
    cases impossible

theorem BoundOnce.addDevice (bound : pci.BoundOnce) {device : PciDevice}
    (single : Unambiguous registry device) : (addDevice registry device pci).BoundOnce := by
  have extended : Pci.BoundOnce { pci with pciDevices := pci.pciDevices ++ [⟨device, none⟩] } := by
    constructor
    · intro init member
      have low := bound.recorded init member
      rw [length_append]
      omega
    · intro index slot atIndex
      change pci.initsOf index = _
      by_cases old : index < pci.pciDevices.length
      · rw [List.getElem?_append_left old] at atIndex
        exact bound.once index slot atIndex
      rw [List.getElem?_append_right (by omega)] at atIndex
      have isNew := mem_singleton.mp (mem_of_getElem? atIndex)
      have none : pci.initsOf index = [] := by
        apply filter_eq_nil_iff.mpr
        intro init member
        have low := bound.recorded init member
        simp only [decide_eq_true_eq]
        omega
      rw [none, isNew]
      rfl
  have last : (pci.pciDevices ++ [⟨device, none⟩])[pci.pciDevices.length]? =
      some ⟨device, none⟩ := by
    rw [List.getElem?_append_right (Nat.le_refl _), Nat.sub_self]
    rfl
  exact extended.bindDrivers last rfl single

def AllUnambiguous (registry : List PciDriver) (config : ConfigSpace)
    (places : List PciLocation) : Prop :=
  ∀ location ∈ places, Present config location → Unambiguous registry (newDevice config location)

theorem BoundOnce.discoverFunctions (bus device : Nat) (functions : List Nat) (bound : pci.BoundOnce)
    (single : AllUnambiguous registry config (deviceLocations bus device functions)) :
    (discoverFunctions registry config bus device functions pci).2.BoundOnce := by
  induction functions generalizing pci with
  | nil => exact bound
  | cons function functions ih =>
    have later : AllUnambiguous registry config (deviceLocations bus device functions) :=
      fun location member => single location (mem_cons_of_mem _ member)
    rw [Pci.discoverFunctions]
    dsimp only
    split
    · exact ih bound later
    rename_i present
    split
    · exact bound
    have added := bound.addDevice (single _ mem_cons_self present)
    split
    · exact added
    · exact ih added later

theorem BoundOnce.discoverDevices (bus : Nat) (devices : List Nat) (bound : pci.BoundOnce)
    (single : AllUnambiguous registry config
      (devices.flatMap (fun device => deviceLocations bus device (List.range 8)))) :
    (discoverDevices registry config bus devices pci).2.BoundOnce := by
  induction devices generalizing pci with
  | nil => exact bound
  | cons device devices ih =>
    have here := bound.discoverFunctions bus device (List.range 8)
      (fun location member => single location (by
        rw [flatMap_cons]
        exact mem_append_left _ member))
    rw [Pci.discoverDevices]
    split
    · exact here
    apply ih here
    intro location member
    apply single location
    rw [flatMap_cons]
    exact mem_append_right _ member

theorem BoundOnce.discoverBuses (buses : List Nat) (bound : pci.BoundOnce)
    (single : AllUnambiguous registry config (buses.flatMap (fun bus => (List.range 32).flatMap
      (fun device => deviceLocations bus device (List.range 8))))) :
    (discoverBuses registry config buses pci).2.BoundOnce := by
  induction buses generalizing pci with
  | nil => exact bound
  | cons bus buses ih =>
    have here := bound.discoverDevices bus (List.range 32)
      (fun location member => single location (by
        rw [flatMap_cons]
        exact mem_append_left _ member))
    rw [Pci.discoverBuses]
    split
    · exact here
    apply ih here
    intro location member
    apply single location
    rw [flatMap_cons]
    exact mem_append_right _ member

theorem BoundOnce.pciDiscover (bound : pci.BoundOnce)
    (single : ∀ location ∈ presentFunctions config,
      Unambiguous registry (newDevice config location)) :
    (pciDiscover registry config pci).BoundOnce := by
  apply bound.discoverBuses
  intro location member present
  exact single location (mem_presentFunctions.mpr ⟨member, present⟩)

end Discovery

/-! ### Late binding -/

section Late

variable {registry : List PciDriver} {pci : Pci}

def UnboundUnambiguous (registry : List PciDriver) (pci : Pci) : Prop :=
  ∀ slot ∈ pci.pciDevices, slot.driver = none → Unambiguous registry slot.device

instance (registry : List PciDriver) (pci : Pci) : Decidable (UnboundUnambiguous registry pci) :=
  inferInstanceAs (Decidable (∀ slot ∈ pci.pciDevices, _))

theorem UnboundUnambiguous.bind (single : UnboundUnambiguous registry pci) (slot driver : Nat) :
    UnboundUnambiguous registry (pci.bind slot driver) := by
  intro entry member unbound
  obtain ⟨index, atIndex⟩ := mem_iff_getElem?.mp member
  rw [bind_getElem] at atIndex
  by_cases same : slot = index
  · rw [if_pos same] at atIndex
    obtain ⟨before, _old, isEntry⟩ := Option.map_eq_some_iff.mp atIndex
    rw [← isEntry] at unbound
    cases unbound
  · rw [if_neg same] at atIndex
    exact single entry (mem_of_getElem? atIndex) unbound

theorem BoundOnce.initUnbound (indices : List Nat) (bound : pci.BoundOnce)
    (single : UnboundUnambiguous registry pci) :
    (initUnbound registry indices pci).BoundOnce := by
  induction indices generalizing pci with
  | nil => exact bound
  | cons index indices ih =>
    rw [Pci.initUnbound]
    cases atIndex : pci.pciDevices[index]? with
    | none => exact ih bound single
    | some slot =>
      dsimp only
      cases held : slot.driver with
      | some driver => exact ih bound single
      | none =>
        have alone := single slot (mem_of_getElem? atIndex) held
        apply ih (bound.bindDrivers atIndex held alone)
        rcases bindDrivers_unambiguous pci index alone with same | ⟨driver, once⟩
        · rw [same]
          exact single
        · rw [once]
          exact single.bind index driver

theorem BoundOnce.pciInitUnboundDevices (bound : pci.BoundOnce)
    (single : UnboundUnambiguous registry pci) :
    (pciInitUnboundDevices registry pci).BoundOnce :=
  bound.initUnbound _ single

end Late

end Pci

/-! ### Runs -/

structure PciSystem where
  pci : Pci
  registry : List PciDriver

inductive PciCall where
  | register (driver : PciDriver)
  | initUnbound

namespace PciSystem

def step (system : PciSystem) : PciCall → Except Fault PciSystem
  | .register driver =>
    .ok { system with registry := (driversPciRegister system.registry driver).2 }
  | .initUnbound => .ok { system with pci := Pci.pciInitUnboundDevices system.registry system.pci }

/-- Late binding meets no device with two matching drivers. -/
def Safe (system : PciSystem) : PciCall → Prop
  | .register _ => True
  | .initUnbound => Pci.UnboundUnambiguous system.registry system.pci

instance (system : PciSystem) (call : PciCall) : Decidable (system.Safe call) :=
  match call with
  | .register _ => isTrue trivial
  | .initUnbound => inferInstanceAs (Decidable (Pci.UnboundUnambiguous _ _))

/-- Over every run after discovery, each device was initialised at most once, by the
driver in its slot. -/
theorem pci_run_binds_once (config : ConfigSpace) (registry : List PciDriver)
    (single : ∀ location ∈ Pci.presentFunctions config,
      Pci.Unambiguous registry (Pci.newDevice config location))
    (calls : List PciCall) (final : PciSystem)
    (run : Run step Safe ⟨Pci.pciDiscover registry config Pci.boot, registry⟩ calls final) :
    final.pci.BoundOnce := by
  apply run.invariant (fun system => system.pci.BoundOnce)
  · exact Pci.BoundOnce.boot.pciDiscover single
  · intro system call next bound safe returned
    cases call with
    | register driver =>
      cases returned
      exact bound
    | initUnbound =>
      cases returned
      exact bound.pciInitUnboundDevices safe

/-- A storage controller with a driver for its class and one for the device. -/
def controllerBus : ConfigSpace := Pci.busWith [⟨0, 31, 0⟩] fun _ => 0x01060000

theorem controllerBus_visits : Pci.allVisits controllerBus = [⟨0, 31, 0⟩] := by
  apply perm_singleton.mp
  apply (perm_ext_iff_of_nodup
    ((Pci.presentFunctions_nodup _).sublist Pci.allVisits_sublist) (nodup_singleton _)).mpr
  intro location
  rw [mem_singleton, Pci.mem_allVisits, Pci.mem_presentFunctions]
  constructor
  · intro visited
    exact mem_singleton.mp (Pci.present_busWith visited.1.2)
  · intro same
    rw [same]
    exact ⟨⟨Pci.mem_locations.mpr (by decide), by decide⟩, Or.inl rfl⟩

theorem controllerBus_discovered (registry : List PciDriver) :
    Pci.pciDiscover registry controllerBus Pci.boot =
      Pci.addDevice registry (Pci.newDevice controllerBus ⟨0, 31, 0⟩) Pci.boot := by
  rw [Pci.pciDiscover_eq (by rw [controllerBus_visits]; decide), controllerBus_visits]
  rfl

theorem pci_run_binds_once_controller : ∃ final,
    Run step Safe ⟨Pci.pciDiscover [] controllerBus Pci.boot, []⟩
      [.register (.classDriver 1 6 0), .initUnbound] final ∧
    final.pci.inits = [⟨0, 0⟩] ∧ final.pci.BoundOnce := by
  have single : ∀ location ∈ Pci.presentFunctions controllerBus,
      Pci.Unambiguous [] (Pci.newDevice controllerBus location) := fun _ _ => Nat.zero_le _
  rw [controllerBus_discovered]
  obtain ⟨final, run, inits⟩ : ∃ final, Run step Safe
      ⟨Pci.addDevice [] (Pci.newDevice controllerBus ⟨0, 31, 0⟩) Pci.boot, []⟩
      [.register (.classDriver 1 6 0), .initUnbound] final ∧ final.pci.inits = [⟨0, 0⟩] :=
    Run.exists_of_execute (fun final : PciSystem => final.pci.inits = [⟨0, 0⟩]) (by decide +kernel)
  have bound := pci_run_binds_once controllerBus [] single _ final
    (by rw [controllerBus_discovered]; exact run)
  exact ⟨final, run, inits, bound⟩

/-- Both drivers are initialised on the one device. -/
theorem pci_discover_binds_twice :
    (Pci.pciDiscover [.classDriver 1 6 0, .specificDevice 0x0106 0] controllerBus Pci.boot).inits =
      [⟨0, 0⟩, ⟨0, 1⟩] ∧
    ¬ (Pci.pciDiscover [.classDriver 1 6 0, .specificDevice 0x0106 0] controllerBus
      Pci.boot).BoundOnce := by
  rw [controllerBus_discovered]
  refine ⟨by decide, ?_⟩
  intro bound
  have once := bound.once 0 _ rfl
  revert once
  decide

end PciSystem

end Fesos
