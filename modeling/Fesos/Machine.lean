/-
The machine underneath the kernel model: 64-bit words, page table entries, and
the ways a kernel call can end without returning.

Addresses and counters are natural numbers; an operation that can leave the
64-bit range is written with `word` or `wordSub`, so a wrap is visible where it
can happen.  A call that dereferences NULL or reaches PANIC does not return: the
page fault handler finds no region for such an address and halts the kernel.
-/

import Mathlib.Data.Nat.Bitwise
import Mathlib.Data.Finset.Card
import Mathlib.Tactic

set_option autoImplicit false

namespace Fesos

/-- Why a kernel call did not return. -/
inductive Fault where
  | nullDereference
  | pageFault (address : Nat)
  | wildCall (callback : Nat)
  | nameOverflow (length : Nat)
  | pmmOutOfRange (address : Nat)
  | pmmDoubleFree (frame : Nat)
  | outOfFuel
  deriving DecidableEq, Repr

def EPERM : Int := 1
def ENOENT : Int := 2
def EIO : Int := 5
def ENOMEM : Int := 12
def EFAULT : Int := 14
def EBUSY : Int := 16
def EEXIST : Int := 17
def ENOTDIR : Int := 20
def EISDIR : Int := 21
def EINVAL : Int := 22

theorem ok_bind {Value Result : Type} (value : Value) (next : Value → Except Fault Result) :
    (Except.ok value >>= next) = next value := rfl

theorem bind_eq_ok {Failure Value Result : Type} {first : Except Failure Value}
    {next : Value → Except Failure Result} {result : Result}
    (returned : (first >>= next) = .ok result) :
    ∃ value, first = .ok value ∧ next value = .ok result := by
  cases first with
  | error failure => cases returned
  | ok value => exact ⟨value, rfl, returned⟩

theorem exists_of_checked {Failure Value : Type} {result : Except Failure Value}
    (property : Value → Prop) [DecidablePred property]
    (checked : result.toOption.any (fun value => decide (property value)) = true) :
    ∃ value, result = .ok value ∧ property value := by
  cases result with
  | error failure => cases checked
  | ok value => exact ⟨value, rfl, of_decide_eq_true checked⟩

/-- A 64-bit register holding the result of an unsigned operation. -/
def word (value : Nat) : Nat := value % 2 ^ 64

def wordSub (left right : Nat) : Nat := word (left + (2 ^ 64 - word right))

/-- Conversion of a 64-bit value to `int`. -/
def toInt32 (value : Int) : Int := Int.bmod value (2 ^ 32)

theorem word_of_lt {value : Nat} (small : value < 2 ^ 64) : word value = value :=
  Nat.mod_eq_of_lt small

theorem word_lt (value : Nat) : word value < 2 ^ 64 :=
  Nat.mod_lt value (by decide)

theorem wordSub_of_le {left right : Nat} (order : right ≤ left)
    (small : left < 2 ^ 64) : wordSub left right = left - right := by
  unfold wordSub
  rw [word_of_lt (Nat.lt_of_le_of_lt order small)]
  unfold word
  have shifted : left + (2 ^ 64 - right) = (left - right) + 2 ^ 64 := by omega
  rw [shifted, Nat.add_mod_right]
  exact Nat.mod_eq_of_lt (by omega)

/-- `base = target - step; base += step`, with the first assignment allowed to
wrap below zero. -/
theorem word_wordSub_add {target step : Nat} (small : target < 2 ^ 64)
    (stepSmall : step < 2 ^ 64) : word (wordSub target step + step) = target := by
  unfold wordSub
  rw [word_of_lt stepSmall]
  unfold word
  omega

/-- A little-endian field of `width` bytes. -/
def littleEndian (file : Nat → UInt8) (offset : Nat) : Nat → Nat
  | 0 => 0
  | width + 1 => (file offset).toNat + 256 * littleEndian file (offset + 1) width

def byteAt (value lane : Nat) : UInt8 := UInt8.ofNat (value >>> (8 * lane))

theorem byteAt_toNat (value lane : Nat) :
    (byteAt value lane).toNat = value / 2 ^ (8 * lane) % 2 ^ 8 := by
  unfold byteAt
  rw [UInt8.toNat_ofNat', Nat.shiftRight_eq_div_pow]

theorem byteAt_succ (value lane : Nat) : byteAt value (lane + 1) = byteAt (value / 256) lane := by
  unfold byteAt
  rw [Nat.shiftRight_eq_div_pow, Nat.shiftRight_eq_div_pow, Nat.div_div_eq_div_mul,
    Nat.mul_succ, Nat.pow_add, Nat.mul_comm]

theorem littleEndian_of_bytes {bytes : Nat → UInt8} {value width offset : Nat}
    (held : ∀ lane < width, bytes (offset + lane) = byteAt value lane) :
    littleEndian bytes offset width = value % 2 ^ (8 * width) := by
  induction width generalizing value offset with
  | zero => exact (Nat.mod_one value).symm
  | succ width ih =>
    have first := held 0 (Nat.succ_pos width)
    have rest : littleEndian bytes (offset + 1) width = value / 256 % 2 ^ (8 * width) := ih (by
      intro lane inside
      rw [← byteAt_succ, Nat.add_assoc, Nat.add_comm 1 lane]
      exact held (lane + 1) (Nat.succ_lt_succ inside))
    rw [Nat.add_zero] at first
    rw [littleEndian, rest, first, byteAt_toNat, Nat.mul_succ, Nat.add_comm (8 * width) 8,
      Nat.pow_add, Nat.mod_mul, Nat.mul_zero, Nat.pow_zero, Nat.div_one]

theorem byteAt_littleEndian (bytes : Nat → UInt8) {lane width : Nat} (offset : Nat)
    (inside : lane < width) : byteAt (littleEndian bytes offset width) lane = bytes (offset + lane) := by
  induction width generalizing lane offset with
  | zero => omega
  | succ width ih =>
    have small := (bytes offset).toNat_lt
    rw [littleEndian]
    cases lane with
    | zero =>
      apply UInt8.toNat_inj.mp
      rw [byteAt_toNat, Nat.mul_zero, Nat.pow_zero, Nat.div_one]
      change _ = (bytes offset).toNat
      omega
    | succ lane =>
      have rest : ((bytes offset).toNat + 256 * littleEndian bytes (offset + 1) width) / 256 =
          littleEndian bytes (offset + 1) width := by omega
      rw [byteAt_succ, rest, ih (offset + 1) (Nat.lt_of_succ_lt_succ inside), Nat.add_assoc,
        Nat.add_comm 1 lane]

/-- The bit-field view of a page table entry.  The union's `raw = 0` store is
the entry `PageTableEntry.zero`. -/
structure PageTableEntry where
  present : Bool
  writeable : Bool
  userAvailable : Bool
  writeThrough : Bool
  disableCaching : Bool
  accessed : Bool
  dirty : Bool
  hugePage : Bool
  global : Bool
  availableLow : Nat
  physicalAddress : Nat
  availableHigh : Nat
  executeDisable : Bool
  deriving DecidableEq, Repr

def PageTableEntry.zero : PageTableEntry :=
  { present := false
    writeable := false
    userAvailable := false
    writeThrough := false
    disableCaching := false
    accessed := false
    dirty := false
    hugePage := false
    global := false
    availableLow := 0
    physicalAddress := 0
    availableHigh := 0
    executeDisable := false }

/-- Stores to the 40-bit `physical_address` field keep its low 40 bits. -/
def physicalField (value : Nat) : Nat := value % 2 ^ 40

end Fesos
