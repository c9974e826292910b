/-
Bitmaps stored as bytes, the least significant bit first, with the two store
expressions that set and clear one bit.
-/

import Mathlib.Data.Nat.Bitwise
import Mathlib.Tactic

set_option autoImplicit false

namespace Fesos.Library

open Function
namespace Bitmap

def bit (bitmap : Nat → UInt8) (number : Nat) : Bool :=
  (bitmap (number / 8)).toNat.testBit (number % 8)

def setBit (bitmap : Nat → UInt8) (number : Nat) : Nat → UInt8 :=
  Function.update bitmap (number / 8)
    (UInt8.ofNat ((bitmap (number / 8)).toNat ||| (1 <<< (number % 8))))

/-- The mask has the bits above and the bits below the cleared one. -/
def clearBit (bitmap : Nat → UInt8) (number : Nat) : Nat → UInt8 :=
  Function.update bitmap (number / 8)
    (UInt8.ofNat ((bitmap (number / 8)).toNat &&&
      ((254 <<< (number % 8)) ||| ((1 <<< (number % 8)) - 1))))

theorem byte_toNat_ofNat (value : Nat) (index : Nat) (inByte : index < 8) :
    (UInt8.ofNat value).toNat.testBit index = value.testBit index := by
  rw [UInt8.toNat_ofNat']
  rw [Nat.testBit_mod_two_pow]
  simp [inByte]

theorem bit_setBit (bitmap : Nat → UInt8) (changed number : Nat) :
    bit (setBit bitmap changed) number = (decide (number = changed) || bit bitmap number) := by
  unfold bit setBit
  by_cases sameByte : number / 8 = changed / 8
  · rw [sameByte]
    simp only [update_self]
    rw [byte_toNat_ofNat _ _ (Nat.mod_lt _ (by decide)), Nat.testBit_or,
      Nat.one_shiftLeft, Nat.testBit_two_pow, Bool.or_comm]
    congr 1
    apply decide_eq_decide.mpr
    constructor
    · intro sameBit
      omega
    · intro same
      rw [same]
  · have different : number ≠ changed := by
      intro same
      exact sameByte (by rw [same])
    simp [update_of_ne sameByte, different]

theorem clearMask_testBit (shift index : Nat) (inByte : index < 8) :
    ((254 <<< shift) ||| ((1 <<< shift) - 1)).testBit index = decide (index ≠ shift) := by
  have mask : ∀ offset < 8, (254 : Nat).testBit offset = decide (offset ≠ 0) := by decide
  rw [Nat.testBit_or, Nat.testBit_shiftLeft, Nat.one_shiftLeft, Nat.testBit_two_pow_sub_one]
  by_cases order : shift ≤ index
  · rw [mask (index - shift) (by omega)]
    by_cases same : index = shift
    · simp [same]
    · have later : ¬ index < shift := by omega
      have positive : index - shift ≠ 0 := by omega
      simp [order, same, positive]
  · have before : index < shift := by omega
    have different : index ≠ shift := by omega
    simp [before, different]

theorem bit_clearBit (bitmap : Nat → UInt8) (changed number : Nat) :
    bit (clearBit bitmap changed) number = (decide (number ≠ changed) && bit bitmap number) := by
  unfold bit clearBit
  by_cases sameByte : number / 8 = changed / 8
  · rw [sameByte]
    simp only [update_self]
    rw [byte_toNat_ofNat _ _ (Nat.mod_lt _ (by decide)), Nat.testBit_and,
      clearMask_testBit _ _ (Nat.mod_lt _ (by decide)), Bool.and_comm]
    congr 1
    apply decide_eq_decide.mpr
    constructor
    · intro differentBit same
      exact differentBit (by rw [same])
    · intro different sameBit
      exact different (by omega)
  · have different : number ≠ changed := by
      intro same
      exact sameByte (by rw [same])
    simp [update_of_ne sameByte, different]

/-- The expression that reads one bit. -/
theorem readBit_eq_zero_iff (bitmap : Nat → UInt8) (number : Nat) :
    ((bitmap (number / 8)).toNat >>> (number % 8)) &&& 1 = 0 ↔ bit bitmap number = false := by
  unfold bit Nat.testBit
  rw [Nat.and_comm]
  simp

/-- All bits of a byte of ones are set. -/
theorem bit_of_full {bitmap : Nat → UInt8} {number : Nat} (full : bitmap (number / 8) = 255) :
    bit bitmap number = true := by
  have ones : ∀ index < 8, (255 : UInt8).toNat.testBit index = true := by decide
  unfold bit
  rw [full]
  exact ones _ (Nat.mod_lt _ (by decide))

end Bitmap
end Fesos.Library
