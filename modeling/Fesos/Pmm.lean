/-
The physical memory manager of memory/pmm.c.

The bitmap is addressed byte by byte and, for the 64-frame skip, as 64-bit
words.  Frames are also the storage of the page tables, so the frames' contents
are kept here as arrays of 512 page table entries: `pmmZeroPage` clears them.
The low-memory warning is only logged and has no counterpart.
-/

import Fesos.Library.Bitmaps
import Fesos.Machine

set_option autoImplicit false

namespace Fesos

/-- The state of the manager on a machine with at least one and at most `limit`
frames. -/
structure PmmOf (limit : Nat) where
  bitmap : Nat → UInt8
  bitmapSizeFrames : Nat
  memoryTotalFrameCount : Nat
  memoryUsedFrameCount : Nat
  ram : Nat → Fin 512 → PageTableEntry
  totalFrames : memoryTotalFrameCount = bitmapSizeFrames
  framesPositive : 0 < bitmapSizeFrames
  framesBound : bitmapSizeFrames ≤ limit

/-- The bound of the platform: physical addresses have at most 52 bits. -/
abbrev Pmm : Type := PmmOf (2 ^ 40)

namespace PmmOf

variable {limit : Nat}

def storeByte (pmm : PmmOf limit) (index : Nat) (byte : UInt8) : PmmOf limit :=
  { pmm with bitmap := Function.update pmm.bitmap index byte }

def setBitmapBit (pmm : PmmOf limit) (bitNumber : Nat) : PmmOf limit :=
  pmm.storeByte (bitNumber / 8)
    (UInt8.ofNat ((pmm.bitmap (bitNumber / 8)).toNat ||| (1 <<< (bitNumber % 8))))

def unsetBitmapBit (pmm : PmmOf limit) (bitNumber : Nat) : PmmOf limit :=
  pmm.storeByte (bitNumber / 8)
    (UInt8.ofNat ((pmm.bitmap (bitNumber / 8)).toNat &&&
      ((254 <<< (bitNumber % 8)) ||| ((1 <<< (bitNumber % 8)) - 1))))

def getBitmapBit (pmm : PmmOf limit) (bitNumber : Nat) : Nat :=
  ((pmm.bitmap (bitNumber / 8)).toNat >>> (bitNumber % 8)) &&& 1

/-- The little-endian 64-bit view `bitmap64[index]`. -/
def bitmap64 (pmm : PmmOf limit) (index : Nat) : Nat :=
  (pmm.bitmap (8 * index)).toNat + 2 ^ 8 * (pmm.bitmap (8 * index + 1)).toNat +
    2 ^ 16 * (pmm.bitmap (8 * index + 2)).toNat + 2 ^ 24 * (pmm.bitmap (8 * index + 3)).toNat +
    2 ^ 32 * (pmm.bitmap (8 * index + 4)).toNat + 2 ^ 40 * (pmm.bitmap (8 * index + 5)).toNat +
    2 ^ 48 * (pmm.bitmap (8 * index + 6)).toNat + 2 ^ 56 * (pmm.bitmap (8 * index + 7)).toNat

def pmmZeroPage (pmm : PmmOf limit) (pAddr : Nat) : PmmOf limit :=
  { pmm with ram := Function.update pmm.ram (pAddr / 4096) (fun _ => PageTableEntry.zero) }

def countUsed (pmm : PmmOf limit) : PmmOf limit :=
  { pmm with memoryUsedFrameCount := word (pmm.memoryUsedFrameCount + 1) }

/-- The inner search loop: `none` is its early return of NULL, `some found` the
number of consecutive free frames seen before it ended. -/
def consecutiveFree (pmm : PmmOf limit) (base : Nat) : Nat → Nat → Option Nat
  | 0, found => some found
  | remaining + 1, found =>
    if pmm.bitmapSizeFrames ≤ word (base + found) then none
    else if pmm.getBitmapBit (word (base + found)) ≠ 0 then some found
    else consecutiveFree pmm base remaining (found + 1)

/-- Mark `remaining` frames from `frame` on as used, zero and count them. -/
def claim (pmm : PmmOf limit) (frame : Nat) : Nat → PmmOf limit
  | 0 => pmm
  | remaining + 1 =>
    (((pmm.setBitmapBit frame).pmmZeroPage (word (frame * 4096))).countUsed).claim (frame + 1)
      remaining

/-- First bit after a full 64-bit word, rounded up to the step. -/
def nextAvailableBit (base step : Nat) : Nat :=
  let nextAvailable := word (base + 64)
  let remainder := nextAvailable % step
  if remainder ≠ 0 then word (nextAvailable + (step - remainder)) else nextAvailable

/-- The main loop.  `base` grows in every round, so as many rounds as there are
frames reach the end of the bitmap. -/
def scan (pmm : PmmOf limit) (count step : Nat) : Nat → Nat → Nat × PmmOf limit
  | 0, _ => (0, pmm)
  | rounds + 1, base =>
    if base < pmm.bitmapSizeFrames then
      if base % 64 = 0 ∧ pmm.bitmap64 (base / 64) = 0xFFFFFFFFFFFFFFFF then
        scan pmm count step rounds
          (word (wordSub (nextAvailableBit base step) step + step))
      else
        match pmm.consecutiveFree base count 0 with
        | none => (0, pmm)
        | some found =>
          if found = count then (word (base * 4096), pmm.claim base count)
          else scan pmm count step rounds (word (base + step))
    else (0, pmm)

def pmmAllocateFrames (pmm : PmmOf limit) (count alignment : Nat) : Nat × PmmOf limit :=
  if count = 0 then (0, pmm)
  else pmm.scan count ((if alignment < 4096 then 4096 else alignment) / 4096)
    pmm.bitmapSizeFrames 0

/-- The release loop over `remaining` frames from `frame` on. -/
def release (pmm : PmmOf limit) (frame : Nat) : Nat → Except Fault (PmmOf limit)
  | 0 => .ok pmm
  | remaining + 1 =>
    if pmm.getBitmapBit frame = 0 then .error (.pmmDoubleFree frame)
    else (pmm.unsetBitmapBit frame).release (frame + 1) remaining

def pmmFreeFrames (pmm : PmmOf limit) (startAddress count : Nat) : Except Fault (PmmOf limit) :=
  if count = 0 then .ok pmm
  else
    let finalFrame := word (startAddress / 4096 + count)
    if pmm.bitmapSizeFrames < finalFrame then
      .error (.pmmOutOfRange (word ((finalFrame - 1) * 4096)))
    else pmm.release (startAddress / 4096) (finalFrame - startAddress / 4096)

/-! ### Reading the bitmap back -/

def used (pmm : PmmOf limit) (frame : Nat) : Bool :=
  (pmm.bitmap (frame / 8)).toNat.testBit (frame % 8)

theorem getBitmapBit_eq_zero_iff (pmm : PmmOf limit) (frame : Nat) :
    pmm.getBitmapBit frame = 0 ↔ pmm.used frame = false :=
  Library.Bitmap.readBit_eq_zero_iff pmm.bitmap frame

theorem setBitmapBit_used (pmm : PmmOf limit) (changed frame : Nat) :
    (pmm.setBitmapBit changed).used frame =
      (decide (frame = changed) || pmm.used frame) :=
  Library.Bitmap.bit_setBit pmm.bitmap changed frame

theorem unsetBitmapBit_used (pmm : PmmOf limit) (changed frame : Nat) :
    (pmm.unsetBitmapBit changed).used frame =
      (decide (frame ≠ changed) && pmm.used frame) :=
  Library.Bitmap.bit_clearBit pmm.bitmap changed frame

/-- A word with all bits set stands for 64 used frames. -/
theorem used_of_bitmap64_full (pmm : PmmOf limit) (base frame : Nat)
    (aligned : base % 64 = 0)
    (full : pmm.bitmap64 (base / 64) = 0xFFFFFFFFFFFFFFFF)
    (lower : base ≤ frame) (upper : frame < base + 64) : pmm.used frame = true := by
  have bound : ∀ index, (pmm.bitmap index).toNat < 256 := fun index =>
    (pmm.bitmap index).toNat_lt
  have allSet : ∀ offset < 8, (pmm.bitmap (8 * (base / 64) + offset)).toNat = 255 := by
    unfold bitmap64 at full
    have b0 := bound (8 * (base / 64))
    have b1 := bound (8 * (base / 64) + 1)
    have b2 := bound (8 * (base / 64) + 2)
    have b3 := bound (8 * (base / 64) + 3)
    have b4 := bound (8 * (base / 64) + 4)
    have b5 := bound (8 * (base / 64) + 5)
    have b6 := bound (8 * (base / 64) + 6)
    have b7 := bound (8 * (base / 64) + 7)
    intro offset small
    interval_cases offset <;> try simp only [Nat.add_zero]
    all_goals omega
  have ones : ∀ bit < 8, (255 : Nat).testBit bit = true := by decide
  unfold used
  have position : frame / 8 = 8 * (base / 64) + (frame / 8 - 8 * (base / 64)) := by omega
  rw [position, allSet (frame / 8 - 8 * (base / 64)) (by omega)]
  exact ones _ (Nat.mod_lt _ (by decide))

@[simp] theorem pmmZeroPage_used (pmm : PmmOf limit) (zeroed frame : Nat) :
    (pmm.pmmZeroPage zeroed).used frame = pmm.used frame := rfl

@[simp] theorem countUsed_used (pmm : PmmOf limit) (frame : Nat) :
    pmm.countUsed.used frame = pmm.used frame := rfl

end PmmOf

end Fesos
