/-
Access to PCI configuration space through the legacy ports: legacy_pci_read,
legacy_pci_write, pci_read_config and pci_write_config of buses/pci.c, after
pci_init has installed them.

A 32-bit store to port 0xCF8 latches an address.  While its enable bit is set, the
four ports from 0xCFC on are the bytes of the register it selects.  Configuration
bytes are plain storage.
-/

import Fesos.Pci

set_option autoImplicit false

namespace Fesos

def pciConfigAddressPortNumber : Nat := 0xCF8
def pciConfigDataPortNumber : Nat := 0xCFC

/-! ### The ports -/

structure PciPorts where
  configAddress : Nat
  config : PciLocation → Nat → UInt8

namespace PciPorts

def selected (ports : PciPorts) : PciLocation :=
  { bus := ports.configAddress / 2 ^ 16 % 2 ^ 8
    device := ports.configAddress / 2 ^ 11 % 2 ^ 5
    function := ports.configAddress / 2 ^ 8 % 2 ^ 3 }

def register (ports : PciPorts) : Nat := ports.configAddress % 2 ^ 8 / 4 * 4

def enabled (ports : PciPorts) : Bool := ports.configAddress.testBit 31

def storeBytes (ports : PciPorts) (first width value : Nat) : PciPorts :=
  { ports with
    config := fun location offset =>
      if location = ports.selected ∧ first ≤ offset ∧ offset < first + width then
        byteAt value (offset - first)
      else ports.config location offset }

def out (ports : PciPorts) (port width value : Nat) : PciPorts :=
  if port = pciConfigAddressPortNumber ∧ width = 4 then { ports with configAddress := value }
  else if ports.enabled ∧ pciConfigDataPortNumber ≤ port ∧
      port + width ≤ pciConfigDataPortNumber + 4 then
    ports.storeBytes (ports.register + (port - pciConfigDataPortNumber)) width value
  else ports

def input (ports : PciPorts) (port width : Nat) : Nat :=
  if ports.enabled ∧ pciConfigDataPortNumber ≤ port ∧
      port + width ≤ pciConfigDataPortNumber + 4 then
    littleEndian (ports.config ports.selected)
      (ports.register + (port - pciConfigDataPortNumber)) width
  else 2 ^ (8 * width) - 1

def outb (ports : PciPorts) (port byte : Nat) : PciPorts := ports.out port 1 byte
def outw (ports : PciPorts) (port word : Nat) : PciPorts := ports.out port 2 word
def outl (ports : PciPorts) (port long : Nat) : PciPorts := ports.out port 4 long

def inb (ports : PciPorts) (port : Nat) : Nat := ports.input port 1
def inw (ports : PciPorts) (port : Nat) : Nat := ports.input port 2
def inl (ports : PciPorts) (port : Nat) : Nat := ports.input port 4

/-! ### The accessors -/

def legacyAddress (location : PciLocation) (offset : Nat) : Nat :=
  0x80000000 ||| (location.bus <<< 16) ||| ((location.device &&& 0x1F) <<< 11) |||
    ((location.function &&& 0x7) <<< 8) ||| (offset &&& 0xFC)

def legacyPciRead (location : PciLocation) (offset size : Nat) (ports : PciPorts) :
    Nat × PciPorts :=
  let ports := ports.outl pciConfigAddressPortNumber (legacyAddress location offset)
  if size = 1 then (ports.inb (pciConfigDataPortNumber + (offset &&& 0x3)), ports)
  else if size = 2 then (ports.inw (pciConfigDataPortNumber + (offset &&& 0x2)), ports)
  else (ports.inl pciConfigDataPortNumber, ports)

/-- The three conditionals have no `else`: the 32-bit store is made for every size. -/
def legacyPciWrite (location : PciLocation) (offset value size : Nat) (ports : PciPorts) :
    PciPorts :=
  let ports := ports.outl pciConfigAddressPortNumber (legacyAddress location offset)
  let ports := if size = 1 then
      ports.outb (pciConfigDataPortNumber + (offset &&& 0x3)) (value % 2 ^ 8)
    else ports
  let ports := if size = 2 then
      ports.outw (pciConfigDataPortNumber + (offset &&& 0x2)) (value % 2 ^ 16)
    else ports
  ports.outl pciConfigDataPortNumber value

def pciReadConfig (device : PciDevice) (offset size : Nat) (ports : PciPorts) : Nat × PciPorts :=
  legacyPciRead device.location offset size ports

def pciWriteConfig (device : PciDevice) (offset value size : Nat) (ports : PciPorts) : PciPorts :=
  legacyPciWrite device.location offset value size ports

end PciPorts

/-- The function a location addresses on the bus: the fields have 8, 5 and 3 bits. -/
def PciLocation.addressed (location : PciLocation) : PciLocation :=
  { bus := location.bus % 2 ^ 8
    device := location.device % 2 ^ 5
    function := location.function % 2 ^ 3 }

namespace PciPorts

/-! ### The latched address -/

theorem offset_mask (offset : Nat) : offset &&& 0xFC = offset % 2 ^ 8 / 4 * 4 := by
  have low : ∀ part < 256, part &&& 0xFC = part / 4 * 4 := by decide +kernel
  have cut : offset &&& 0xFC = offset % 2 ^ 8 &&& 0xFC := by
    rw [← Nat.and_two_pow_sub_one_eq_mod, Nat.and_assoc]
    rfl
  rw [cut]
  exact low _ (Nat.mod_lt _ (by decide))

theorem enable_testBit (bit : Nat) : Nat.testBit 0x80000000 bit = decide (31 = bit) :=
  Nat.testBit_two_pow (n := 31) (m := bit)

theorem device_testBit (device bit : Nat) :
    Nat.testBit (device &&& 0x1F) bit = (decide (bit < 5) && device.testBit bit) := by
  rw [show (0x1F : Nat) = 2 ^ 5 - 1 from rfl, Nat.and_two_pow_sub_one_eq_mod,
    Nat.testBit_mod_two_pow]

theorem function_testBit (function bit : Nat) :
    Nat.testBit (function &&& 0x7) bit = (decide (bit < 3) && function.testBit bit) := by
  rw [show (0x7 : Nat) = 2 ^ 3 - 1 from rfl, Nat.and_two_pow_sub_one_eq_mod,
    Nat.testBit_mod_two_pow]

theorem offset_testBit {bit : Nat} (offset : Nat) (high : 8 ≤ bit) :
    Nat.testBit (offset &&& 0xFC) bit = false := by
  rw [offset_mask]
  apply Nat.testBit_lt_two_pow
  have bounded : offset % 2 ^ 8 / 4 * 4 < 2 ^ 8 := by omega
  exact Nat.lt_of_lt_of_le bounded (Nat.pow_le_pow_right (by decide) high)

theorem legacyAddress_testBit (location : PciLocation) (offset bit : Nat) :
    (legacyAddress location offset).testBit bit =
      (decide (31 = bit) || (decide (16 ≤ bit) && location.bus.testBit (bit - 16)) ||
        (decide (11 ≤ bit) && (decide (bit - 11 < 5) && location.device.testBit (bit - 11))) ||
        (decide (8 ≤ bit) && (decide (bit - 8 < 3) && location.function.testBit (bit - 8))) ||
        Nat.testBit (offset &&& 0xFC) bit) := by
  unfold legacyAddress
  simp only [Nat.testBit_or, Nat.testBit_shiftLeft, enable_testBit, device_testBit,
    function_testBit, ge_iff_le]

theorem field_of_bits {address value shift width : Nat}
    (bits : ∀ bit < width, address.testBit (shift + bit) = value.testBit bit) :
    address / 2 ^ shift % 2 ^ width = value % 2 ^ width := by
  apply Nat.eq_of_testBit_eq
  intro bit
  rw [Nat.testBit_mod_two_pow, Nat.testBit_mod_two_pow, Nat.testBit_div_two_pow]
  by_cases inside : bit < width
  · rw [Nat.add_comm bit shift, bits bit inside]
  · rw [decide_eq_false inside, Bool.false_and, Bool.false_and]

theorem legacyAddress_enabled (location : PciLocation) (offset : Nat) :
    (legacyAddress location offset).testBit 31 = true := by
  rw [legacyAddress_testBit]
  rfl

/-- The address selects the function it was made for. -/
theorem legacyAddress_selected (location : PciLocation) (offset : Nat) (ports : PciPorts) :
    { ports with configAddress := legacyAddress location offset : PciPorts }.selected =
      location.addressed := by
  unfold selected PciLocation.addressed
  rw [PciLocation.mk.injEq]
  refine ⟨?_, ?_, ?_⟩
  · apply field_of_bits
    intro bit inside
    rw [legacyAddress_testBit, offset_testBit offset (by omega)]
    simp [show ¬ 31 = 16 + bit by omega, show ¬ 16 + bit - 11 < 5 by omega,
      show ¬ 16 + bit - 8 < 3 by omega]
  · apply field_of_bits
    intro bit inside
    rw [legacyAddress_testBit, offset_testBit offset (by omega)]
    simp [show ¬ 31 = 11 + bit by omega, show ¬ 16 ≤ 11 + bit by omega, inside,
      show ¬ 11 + bit - 8 < 3 by omega]
  · apply field_of_bits
    intro bit inside
    rw [legacyAddress_testBit, offset_testBit offset (by omega)]
    simp [show ¬ 31 = 8 + bit by omega, show ¬ 16 ≤ 8 + bit by omega, inside,
      show ¬ 11 ≤ 8 + bit by omega]

theorem legacyAddress_register (location : PciLocation) (offset : Nat) (ports : PciPorts) :
    { ports with configAddress := legacyAddress location offset : PciPorts }.register =
      offset % 2 ^ 8 / 4 * 4 := by
  have field : legacyAddress location offset / 2 ^ 0 % 2 ^ 8 = (offset &&& 0xFC) % 2 ^ 8 := by
    apply field_of_bits
    intro bit inside
    rw [legacyAddress_testBit, Nat.zero_add]
    simp [show ¬ 31 = bit by omega, show ¬ 16 ≤ bit by omega, show ¬ 11 ≤ bit by omega,
      show ¬ 8 ≤ bit by omega]
  rw [Nat.pow_zero, Nat.div_one, offset_mask] at field
  unfold register
  rw [field]
  omega

/-! ### What the accessors do -/

def latch (ports : PciPorts) (location : PciLocation) (offset : Nat) : PciPorts :=
  { ports with configAddress := legacyAddress location offset }

theorem input_latch (ports : PciPorts) (location : PciLocation) (offset : Nat) {lane width : Nat}
    (inside : lane + width ≤ 4) :
    (ports.latch location offset).input (pciConfigDataPortNumber + lane) width =
      littleEndian (ports.config location.addressed) (offset % 2 ^ 8 / 4 * 4 + lane) width := by
  unfold input
  rw [if_pos ⟨legacyAddress_enabled location offset, Nat.le_add_right _ _, by omega⟩,
    Nat.add_sub_cancel_left]
  unfold latch
  rw [legacyAddress_selected, legacyAddress_register]

/-- The address is latched and only bytes of the selected register were stored since. -/
structure Narrow (before : PciPorts) (location : PciLocation) (offset : Nat)
    (ports : PciPorts) : Prop where
  latched : ports.configAddress = legacyAddress location offset
  outside : ∀ other position, ¬ (other = location.addressed ∧ offset % 2 ^ 8 / 4 * 4 ≤ position ∧
    position < offset % 2 ^ 8 / 4 * 4 + 4) → ports.config other position = before.config other position

section Narrow

variable {before ports : PciPorts} {location : PciLocation} {offset lane width : Nat}

theorem narrow_latch (ports : PciPorts) (location : PciLocation) (offset : Nat) :
    Narrow ports location offset (ports.latch location offset) :=
  ⟨rfl, fun _ _ _ => rfl⟩

/-- A store through the data window. -/
theorem Narrow.out_eq (narrow : Narrow before location offset ports) (value : Nat)
    (inside : lane + width ≤ 4) :
    ports.out (pciConfigDataPortNumber + lane) width value =
      { ports with
        config := fun other position =>
          if other = location.addressed ∧ offset % 2 ^ 8 / 4 * 4 + lane ≤ position ∧
              position < offset % 2 ^ 8 / 4 * 4 + lane + width then
            byteAt value (position - (offset % 2 ^ 8 / 4 * 4 + lane))
          else ports.config other position } := by
  have same : ports = ports.latch location offset := by
    unfold latch
    rw [← narrow.latched]
  have isEnabled : ports.enabled = true := by
    rw [same]
    exact legacyAddress_enabled location offset
  have isSelected : ports.selected = location.addressed := by
    rw [same]
    exact legacyAddress_selected location offset ports
  have isRegister : ports.register = offset % 2 ^ 8 / 4 * 4 := by
    rw [same]
    exact legacyAddress_register location offset ports
  have notAddress : ¬ (pciConfigDataPortNumber + lane = pciConfigAddressPortNumber ∧
      width = 4) := by
    intro both
    have port := both.1
    unfold pciConfigDataPortNumber pciConfigAddressPortNumber at port
    omega
  unfold out
  rw [if_neg notAddress, if_pos ⟨isEnabled, Nat.le_add_right _ _, by omega⟩,
    Nat.add_sub_cancel_left]
  unfold storeBytes
  rw [isSelected, isRegister]

theorem Narrow.out (narrow : Narrow before location offset ports) (value : Nat)
    (inside : lane + width ≤ 4) :
    Narrow before location offset
      (ports.out (pciConfigDataPortNumber + lane) width value) := by
  rw [narrow.out_eq value inside]
  constructor
  · exact narrow.latched
  · intro other position outside
    have untouched : ¬ (other = location.addressed ∧
        offset % 2 ^ 8 / 4 * 4 + lane ≤ position ∧
          position < offset % 2 ^ 8 / 4 * 4 + lane + width) := by
      intro touched
      exact outside ⟨touched.1, by omega, by omega⟩
    exact (if_neg untouched).trans (narrow.outside other position outside)

end Narrow

/-- Whatever the size, the write leaves the four bytes of the value in the register. -/
theorem legacyPciWrite_config (location other : PciLocation) (offset value size position : Nat)
    (ports : PciPorts) :
    (legacyPciWrite location offset value size ports).config other position =
      if other = location.addressed ∧ offset % 2 ^ 8 / 4 * 4 ≤ position ∧
          position < offset % 2 ^ 8 / 4 * 4 + 4 then
        byteAt value (position - offset % 2 ^ 8 / 4 * 4)
      else ports.config other position := by
  have final : ∀ middle, Narrow ports location offset middle →
      (middle.outl pciConfigDataPortNumber value).config other position =
        if other = location.addressed ∧ offset % 2 ^ 8 / 4 * 4 ≤ position ∧
            position < offset % 2 ^ 8 / 4 * 4 + 4 then
          byteAt value (position - offset % 2 ^ 8 / 4 * 4)
        else ports.config other position := by
    intro middle narrow
    have stored := narrow.out_eq value (Nat.le_refl (0 + 4))
    rw [Nat.add_zero, Nat.add_zero] at stored
    unfold outl
    rw [stored]
    by_cases inside : other = location.addressed ∧ offset % 2 ^ 8 / 4 * 4 ≤ position ∧
        position < offset % 2 ^ 8 / 4 * 4 + 4
    · rw [if_pos inside]
      exact if_pos inside
    · rw [if_neg inside]
      exact (if_neg inside).trans (narrow.outside other position inside)
  have low : (offset &&& 0x3) + 1 ≤ 4 := Nat.succ_le_succ Nat.and_le_right
  have even : (offset &&& 0x2) + 2 ≤ 4 := Nat.add_le_add_right Nat.and_le_right 2
  have latched := narrow_latch ports location offset
  apply final
  by_cases one : size = 1
  · have notTwo : ¬ size = 2 := by omega
    rw [if_pos one, if_neg notTwo]
    exact latched.out (value % 2 ^ 8) low
  rw [if_neg one]
  by_cases two : size = 2
  · rw [if_pos two]
    exact latched.out (value % 2 ^ 16) even
  · rw [if_neg two]
    exact latched

theorem even_mask (offset : Nat) : offset &&& 0x2 = offset % 2 ^ 2 / 2 * 2 := by
  have low : ∀ part < 4, part &&& 0x2 = part / 2 * 2 := by decide
  have cut : offset &&& 0x2 = offset % 2 ^ 2 &&& 0x2 := by
    rw [← Nat.and_two_pow_sub_one_eq_mod, Nat.and_assoc]
    rfl
  rw [cut]
  exact low _ (Nat.mod_lt _ (by decide))

section Read

variable (location : PciLocation) (offset : Nat) (ports : PciPorts)

theorem legacyPciRead_config (size : Nat) :
    (legacyPciRead location offset size ports).2 = ports.latch location offset := by
  unfold legacyPciRead
  by_cases one : size = 1
  · rw [if_pos one]
    rfl
  rw [if_neg one]
  by_cases two : size = 2
  · rw [if_pos two]
    rfl
  · rw [if_neg two]
    rfl

theorem legacyPciRead_byte : (legacyPciRead location offset 1 ports).1 =
    littleEndian (ports.config location.addressed) (offset % 2 ^ 8) 1 := by
  have low : offset &&& 0x3 = offset % 4 := Nat.and_two_pow_sub_one_eq_mod offset 2
  have lane : offset % 2 ^ 8 / 4 * 4 + offset % 4 = offset % 2 ^ 8 := by omega
  change (ports.latch location offset).input (pciConfigDataPortNumber + (offset &&& 0x3)) 1 = _
  rw [low, input_latch ports location offset (by omega), lane]

theorem legacyPciRead_word : (legacyPciRead location offset 2 ports).1 =
    littleEndian (ports.config location.addressed) (offset % 2 ^ 8 / 2 * 2) 2 := by
  have lane : offset % 2 ^ 8 / 4 * 4 + offset % 2 ^ 2 / 2 * 2 = offset % 2 ^ 8 / 2 * 2 := by omega
  change (ports.latch location offset).input (pciConfigDataPortNumber + (offset &&& 0x2)) 2 = _
  rw [even_mask, input_latch ports location offset (by omega), lane]

theorem legacyPciRead_long : (legacyPciRead location offset 4 ports).1 =
    littleEndian (ports.config location.addressed) (offset % 2 ^ 8 / 4 * 4) 4 :=
  input_latch ports location offset (Nat.le_refl (0 + 4))

/-- What discovery reads does not depend on the address latched before. -/
def configSpace (ports : PciPorts) : ConfigSpace :=
  fun location offset => UInt32.ofNat (legacyPciRead location offset 4 ports).1

theorem legacyPciRead_aligned {size : Nat} (below : offset < 256)
    (sizes : size = 1 ∨ size = 2 ∨ size = 4) (aligned : offset % size = 0) :
    (legacyPciRead location offset size ports).1 =
      littleEndian (ports.config location.addressed) offset size := by
  rcases sizes with rfl | rfl | rfl
  · have whole : offset % 2 ^ 8 = offset := by omega
    rw [legacyPciRead_byte, whole]
  · have whole : offset % 2 ^ 8 / 2 * 2 = offset := by omega
    rw [legacyPciRead_word, whole]
  · have whole : offset % 2 ^ 8 / 4 * 4 = offset := by omega
    rw [legacyPciRead_long, whole]

end Read

/-! ### Exact writes -/

structure WritesExactly (before after : PciPorts) (location : PciLocation)
    (offset size value : Nat) : Prop where
  written : ∀ lane < size, after.config location (offset + lane) = byteAt value lane
  kept : ∀ other position, ¬ (other = location ∧ offset ≤ position ∧ position < offset + size) →
    after.config other position = before.config other position

/-- What the lane of a register has to hold after a write to its bytes from `first` on. -/
def intended (old : Nat → UInt8) (first size value lane : Nat) : UInt8 :=
  if first ≤ lane ∧ lane < first + size then byteAt value (lane - first) else old lane

/-- The 32-bit store puts the whole value into the register.  The write is exact when each byte
of the value is what its lane has to hold. -/
theorem pci_write_exact_iff (device : PciDevice) (offset value size : Nat) (ports : PciPorts)
    (below : offset < 256) (sizes : size = 1 ∨ size = 2 ∨ size = 4) (aligned : offset % size = 0) :
    (WritesExactly ports (pciWriteConfig device offset value size ports) device.location.addressed
        offset size value ∧
      (pciReadConfig device offset size (pciWriteConfig device offset value size ports)).1 =
        value % 2 ^ (8 * size)) ↔
      ∀ lane < 4, byteAt value lane =
        intended (fun lane => ports.config device.location.addressed (offset / 4 * 4 + lane))
          (offset % 4) size value lane := by
  have register : offset % 2 ^ 8 / 4 * 4 = offset / 4 * 4 := by omega
  have room : offset % 4 + size ≤ 4 := by
    rcases sizes with rfl | rfl | rfl <;> omega
  have stored : ∀ other position,
      (pciWriteConfig device offset value size ports).config other position =
        if other = device.location.addressed ∧ offset / 4 * 4 ≤ position ∧
            position < offset / 4 * 4 + 4 then
          byteAt value (position - offset / 4 * 4)
        else ports.config other position := by
    intro other position
    rw [← register]
    exact legacyPciWrite_config device.location other offset value size position ports
  have lanes : ∀ lane < 4, (pciWriteConfig device offset value size ports).config
      device.location.addressed (offset / 4 * 4 + lane) = byteAt value lane := by
    intro lane inside
    rw [stored, if_pos ⟨rfl, by omega, by omega⟩, Nat.add_sub_cancel_left]
  constructor
  · intro holds lane inside
    unfold intended
    by_cases target : offset % 4 ≤ lane ∧ lane < offset % 4 + size
    · rw [if_pos target]
      have written := holds.1.written (lane - offset % 4) (by omega)
      have place : offset + (lane - offset % 4) = offset / 4 * 4 + lane := by omega
      rw [place, lanes lane inside] at written
      exact written
    · rw [if_neg target]
      have kept := holds.1.kept device.location.addressed (offset / 4 * 4 + lane) (by omega)
      rw [lanes lane inside] at kept
      exact kept
  · intro fits
    have written : ∀ lane < size, (pciWriteConfig device offset value size ports).config
        device.location.addressed (offset + lane) = byteAt value lane := by
      intro lane inside
      have place : offset + lane = offset / 4 * 4 + (offset % 4 + lane) := by omega
      have target : offset % 4 ≤ offset % 4 + lane ∧ offset % 4 + lane < offset % 4 + size := by
        omega
      rw [place, lanes _ (by omega), fits _ (by omega)]
      unfold intended
      rw [if_pos target, Nat.add_sub_cancel_left]
    refine ⟨⟨written, ?_⟩, ?_⟩
    · intro other position outside
      rw [stored]
      by_cases inside : other = device.location.addressed ∧ offset / 4 * 4 ≤ position ∧
          position < offset / 4 * 4 + 4
      · have untouched : ¬ (offset % 4 ≤ position - offset / 4 * 4 ∧
            position - offset / 4 * 4 < offset % 4 + size) := by
          intro target
          exact outside ⟨inside.1, by omega, by omega⟩
        have place : offset / 4 * 4 + (position - offset / 4 * 4) = position := by omega
        rw [if_pos inside, fits _ (by omega)]
        unfold intended
        rw [if_neg untouched, inside.1]
        change ports.config device.location.addressed
          (offset / 4 * 4 + (position - offset / 4 * 4)) = _
        rw [place]
      · rw [if_neg inside]
    · unfold pciReadConfig
      rw [legacyPciRead_aligned device.location offset _ below sizes aligned,
        littleEndian_of_bytes written]

/-- The controller that the driver of storage/ahci.c is bound to, on the first bus. -/
def storageController : PciDevice :=
  { location := ⟨0, 31, 2⟩
    vendorId := 0x8086
    deviceId := 0x2922
    classCode := 1
    subclass := 6
    progIf := 1
    bars := [] }

def countingPorts : PciPorts :=
  { configAddress := 0
    config := fun _ position => UInt8.ofNat (position % 4 + 1) }

theorem pci_write_exact_iff_long :
    (pciReadConfig storageController 4 4
      (pciWriteConfig storageController 4 0xCAFE0006 4 countingPorts)).1 = 0xCAFE0006 :=
  ((pci_write_exact_iff storageController 4 0xCAFE0006 4 countingPorts (by decide)
    (Or.inr (Or.inr rfl)) rfl).mpr (by decide)).2

/-- Enabling bus mastering with a 16-bit write of the command register clears the status
register behind it. -/
theorem pci_write_clobbers_status :
    ¬ WritesExactly countingPorts (pciWriteConfig storageController 4 0x6 2 countingPorts)
      storageController.location.addressed 4 2 0x6 := by
  intro exactly
  have kept := exactly.kept storageController.location.addressed 6 (by decide)
  exact absurd kept (by decide)

end PciPorts

end Fesos
