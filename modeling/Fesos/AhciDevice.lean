/-
The PCI side of ahci_init_device in drivers/storage/ahci.c: the search of the
capability list for power management and the command register.

The loop over the list has no bound in the source; here it is given a number of
turns and answers `none` when they run out before it leaves the loop.
-/

import Fesos.Library.Chains
import Fesos.PciConfig

set_option autoImplicit false

namespace Fesos

open PciPorts Library

/-- The driver wakes the controller: both bits of the power state are cleared. -/
def wakeController (device : PciDevice) (currentOffset : UInt8) (ports : PciPorts) : PciPorts :=
  let (pmcsr, ports) := pciReadConfig device (currentOffset.toNat + 0x4) 2 ports
  pciWriteConfig device (currentOffset.toNat + 0x4) (pmcsr &&& 0xFFFC) 2 ports

def capabilityLoop (device : PciDevice) : Nat → UInt8 → PciPorts → Option PciPorts
  | turns, nextOffset, ports =>
    if nextOffset = 0 then some ports
    else match turns with
      | 0 => none
      | turns + 1 =>
        let (cap, ports) := pciReadConfig device nextOffset.toNat 2 ports
        if UInt8.ofNat (cap &&& 0xFF) = 0x1 then some (wakeController device nextOffset ports)
        else capabilityLoop device turns (UInt8.ofNat (cap >>> 8)) ports

def exploreCapabilities (device : PciDevice) (turns : Nat) (ports : PciPorts) : Option PciPorts :=
  let (statusReg, ports) := pciReadConfig device 0x6 2 ports
  if statusReg &&& 0x10 ≠ 0 then
    let (nextOffset, ports) := pciReadConfig device 0x34 1 ports
    capabilityLoop device turns (UInt8.ofNat nextOffset) ports
  else some ports

/-- ahci_init_device up to the mapping of the controller's registers. -/
def ahciInitDevicePci (device : PciDevice) (turns : Nat) (ports : PciPorts) : Option PciPorts := do
  let ports ← exploreCapabilities device turns ports
  let (pciCommandRegister, ports) := pciReadConfig device 0x4 2 ports
  some (pciWriteConfig device 0x4 (pciCommandRegister ||| 0x6) 2 ports)

/-! ### The list in the configuration bytes -/

/-- A 16-bit access to an odd offset reaches the even one below it. -/
def capabilityId (bytes : Nat → UInt8) (offset : UInt8) : UInt8 := bytes (offset.toNat / 2 * 2)

def capabilityNext (bytes : Nat → UInt8) (offset : UInt8) : UInt8 :=
  bytes (offset.toNat / 2 * 2 + 1)

def CapabilityEnds (bytes : Nat → UInt8) (offset : UInt8) : Prop :=
  offset = 0 ∨ capabilityId bytes offset = 0x1

instance decidableCapabilityEnds (bytes : Nat → UInt8) (offset : UInt8) :
    Decidable (CapabilityEnds bytes offset) :=
  inferInstanceAs (Decidable (_ ∨ _))

section Bytes

variable (device : PciDevice) (ports : PciPorts)

def configBytes : Nat → UInt8 := ports.config device.location.addressed

theorem low_of_pair (low high : UInt8) :
    UInt8.ofNat ((low.toNat + 2 ^ 8 * high.toNat) &&& 0xFF) = low := by
  have cut : (low.toNat + 2 ^ 8 * high.toNat) &&& 0xFF = low.toNat := by
    rw [show (0xFF : Nat) = 2 ^ 8 - 1 from rfl, Nat.and_two_pow_sub_one_eq_mod,
      Nat.add_mul_mod_self_left]
    exact Nat.mod_eq_of_lt low.toNat_lt
  rw [cut, UInt8.ofNat_toNat]

theorem high_of_pair (low high : UInt8) :
    UInt8.ofNat ((low.toNat + 2 ^ 8 * high.toNat) >>> 8) = high := by
  have cut : (low.toNat + 2 ^ 8 * high.toNat) >>> 8 = high.toNat := by
    have bound : low.toNat < 2 ^ 8 := low.toNat_lt
    rw [Nat.shiftRight_eq_div_pow]
    omega
  rw [cut, UInt8.ofNat_toNat]

theorem read_capability (offset : UInt8) :
    (pciReadConfig device offset.toNat 2 ports).1 =
      (capabilityId (configBytes device ports) offset).toNat +
        2 ^ 8 * (capabilityNext (configBytes device ports) offset).toNat := by
  have bound : offset.toNat < 2 ^ 8 := offset.toNat_lt
  unfold pciReadConfig
  rw [legacyPciRead_word, Nat.mod_eq_of_lt bound]
  rfl

theorem read_configBytes (offset size : Nat) :
    configBytes device (pciReadConfig device offset size ports).2 = configBytes device ports := by
  unfold pciReadConfig
  rw [legacyPciRead_config]
  rfl

end Bytes

/-! ### Termination -/

section Loop

variable {device : PciDevice}

variable {turns : Nat} {ports : PciPorts} {offset : UInt8}

theorem capabilityLoop_succ
    (more : offset ≠ 0) :
    capabilityLoop device (turns + 1) offset ports =
      if capabilityId (configBytes device ports) offset = 0x1 then
        some (wakeController device offset (pciReadConfig device offset.toNat 2 ports).2)
      else capabilityLoop device turns (capabilityNext (configBytes device ports) offset)
        (pciReadConfig device offset.toNat 2 ports).2 := by
  rw [capabilityLoop, if_neg more]
  change (if UInt8.ofNat ((pciReadConfig device offset.toNat 2 ports).1 &&& 0xFF) = 0x1 then _
    else capabilityLoop device turns
      (UInt8.ofNat ((pciReadConfig device offset.toNat 2 ports).1 >>> 8)) _) = _
  rw [read_capability, low_of_pair, high_of_pair]
  rfl

theorem capabilityLoop_zero_offset (turns : Nat) (ports : PciPorts) :
    capabilityLoop device turns 0 ports = some ports := by
  cases turns with
  | zero => rfl
  | succ turns => rfl

theorem capabilityLoop_ends
    (ended : (capabilityLoop device turns offset ports).isSome = true) :
    ∃ step, CapabilityEnds (configBytes device ports)
      ((capabilityNext (configBytes device ports))^[step] offset) := by
  induction turns generalizing offset ports with
  | zero =>
    by_cases done : offset = 0
    · exact ⟨0, Or.inl done⟩
    · rw [capabilityLoop, if_neg done] at ended
      cases ended
  | succ turns ih =>
    by_cases done : offset = 0
    · exact ⟨0, Or.inl done⟩
    rw [capabilityLoop_succ done] at ended
    by_cases found : capabilityId (configBytes device ports) offset = 0x1
    · exact ⟨0, Or.inr found⟩
    rw [if_neg found] at ended
    obtain ⟨step, reached⟩ := ih ended
    rw [read_configBytes] at reached
    exact ⟨step + 1, reached⟩

/-- Enough turns to come to an offset that ends the search are enough for the search. -/
theorem capabilityLoop_enough {step : Nat}
    (reached : CapabilityEnds (configBytes device ports)
      ((capabilityNext (configBytes device ports))^[step] offset)) (enough : step < turns) :
    (capabilityLoop device turns offset ports).isSome = true := by
  induction turns generalizing step offset ports with
  | zero => omega
  | succ turns ih =>
    by_cases done : offset = 0
    · rw [done, capabilityLoop_zero_offset]
      rfl
    rw [capabilityLoop_succ done]
    by_cases found : capabilityId (configBytes device ports) offset = 0x1
    · rw [if_pos found]
      rfl
    rw [if_neg found]
    cases step with
    | zero =>
      rcases reached with isZero | isPower
      · exact absurd isZero done
      · exact absurd isPower found
    | succ step =>
      have later : CapabilityEnds
          (configBytes device (pciReadConfig device offset.toNat 2 ports).2)
          ((capabilityNext (configBytes device
            (pciReadConfig device offset.toNat 2 ports).2))^[step]
              (capabilityNext (configBytes device ports) offset)) := by
        rw [read_configBytes]
        exact reached
      exact ih later (by omega)

end Loop

theorem status_bit (low high : UInt8) :
    (low.toNat + 2 ^ 8 * high.toNat) &&& 0x10 = low.toNat &&& 0x10 := by
  have cut : ∀ value : Nat, value &&& 0x10 = value % 2 ^ 8 &&& 0x10 := by
    intro value
    rw [← Nat.and_two_pow_sub_one_eq_mod, Nat.and_assoc]
    rfl
  rw [cut, Nat.add_mul_mod_self_left, ← cut]

theorem read_byte (device : PciDevice) (offset : UInt8) (ports : PciPorts) :
    UInt8.ofNat (pciReadConfig device offset.toNat 1 ports).1 =
      configBytes device ports offset.toNat := by
  have bound : offset.toNat < 2 ^ 8 := offset.toNat_lt
  unfold pciReadConfig
  rw [legacyPciRead_byte, Nat.mod_eq_of_lt bound]
  change UInt8.ofNat ((configBytes device ports offset.toNat).toNat + 256 * 0) = _
  rw [Nat.mul_zero, Nat.add_zero, UInt8.ofNat_toNat]

/-- The search as a function of the configuration bytes. -/
theorem exploreCapabilities_eq (device : PciDevice) (turns : Nat) (ports : PciPorts) :
    exploreCapabilities device turns ports =
      if (configBytes device ports 0x6).toNat &&& 0x10 ≠ 0 then
        capabilityLoop device turns (configBytes device ports 0x34)
          (pciReadConfig device 0x34 1 (pciReadConfig device 0x6 2 ports).2).2
      else some (pciReadConfig device 0x6 2 ports).2 := by
  have status : (pciReadConfig device 0x6 2 ports).1 &&& 0x10 =
      (configBytes device ports 0x6).toNat &&& 0x10 := by
    have read := read_capability device ports 0x6
    change (pciReadConfig device 0x6 2 ports).1 = _ at read
    rw [read]
    exact status_bit _ _
  have first := read_byte device 0x34 (pciReadConfig device 0x6 2 ports).2
  rw [read_configBytes] at first
  rw [← status]
  change (if _ then capabilityLoop device turns
    (UInt8.ofNat (pciReadConfig device 0x34 1 (pciReadConfig device 0x6 2 ports).2).1) _
      else _) = _
  change UInt8.ofNat (pciReadConfig device 0x34 1 (pciReadConfig device 0x6 2 ports).2).1 =
    configBytes device ports 0x34 at first
  rw [first]
  rfl

theorem toFin_injective : Function.Injective UInt8.toFin :=
  fun _ _ same => UInt8.toFin_inj.mp same

/-- The search ends for the lists that come to their end or to a power management entry.  The
256 offsets bound the number of steps to either. -/
theorem capability_walk_terminates_iff (device : PciDevice) (ports : PciPorts) :
    (∃ turns, (exploreCapabilities device turns ports).isSome = true) ↔
      ((configBytes device ports 0x6).toNat &&& 0x10 = 0 ∨
        ∃ step < 256, CapabilityEnds (configBytes device ports)
          ((capabilityNext (configBytes device ports))^[step] (configBytes device ports 0x34))) := by
  have bytes : configBytes device
      (pciReadConfig device 0x34 1 (pciReadConfig device 0x6 2 ports).2).2 =
        configBytes device ports := by
    rw [read_configBytes, read_configBytes]
  by_cases list : (configBytes device ports 0x6).toNat &&& 0x10 = 0
  · constructor
    · intro _
      exact Or.inl list
    · intro _
      refine ⟨0, ?_⟩
      rw [exploreCapabilities_eq, if_neg (fun some => some list)]
      rfl
  · constructor
    · rintro ⟨turns, ended⟩
      rw [exploreCapabilities_eq, if_pos list] at ended
      obtain ⟨step, reached⟩ := capabilityLoop_ends ended
      rw [bytes] at reached
      exact Or.inr (reached_within_bound toFin_injective _ _ reached)
    · rintro (none | ⟨step, bound, reached⟩)
      · exact absurd none list
      · refine ⟨256, ?_⟩
        rw [exploreCapabilities_eq, if_pos list]
        apply capabilityLoop_enough _ bound
        rw [bytes]
        exact reached

/-- A capability at 0x40 that names itself as the next one. -/
def loopingPorts : PciPorts :=
  { configAddress := 0
    config := fun _ position =>
      if position = 0x6 then 0x10
      else if position = 0x34 then 0x40
      else if position = 0x40 then 0x5
      else if position = 0x41 then 0x40
      else 0 }

theorem looping_next : capabilityNext (configBytes storageController loopingPorts) 0x40 = 0x40 := by
  decide

theorem looping_steps (step : Nat) :
    (capabilityNext (configBytes storageController loopingPorts))^[step] 0x40 = 0x40 := by
  induction step with
  | zero => rfl
  | succ step ih => rw [Function.iterate_succ_apply, looping_next, ih]

/-- No number of turns is enough for a list that points at itself. -/
theorem capability_walk_loops :
    ¬ ∃ turns, (exploreCapabilities storageController turns loopingPorts).isSome = true := by
  rintro ⟨turns, ended⟩
  rw [exploreCapabilities_eq, if_pos (by decide)] at ended
  obtain ⟨step, reached⟩ := capabilityLoop_ends ended
  rw [read_configBytes, read_configBytes] at reached
  change CapabilityEnds _ ((capabilityNext _)^[step] 0x40) at reached
  rw [looping_steps] at reached
  exact absurd reached (by decide)

end Fesos
