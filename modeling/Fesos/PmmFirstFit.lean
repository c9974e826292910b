/-
The allocation of memory/pmm.c against plain first fit.

First fit looks at the multiples of the step one after another and takes the first
at which the whole run is free.  The scan skips full words and gives up near the
end of the bitmap; it still finds that run, and it ends.  Both need that every
frame has a 64-bit address: the address of a frame beyond that wraps.
-/

import Fesos.PmmOwnership

set_option autoImplicit false

namespace Fesos

namespace PmmOf

variable {limit : Nat}

def scanEnds (pmm : PmmOf limit) (count step : Nat) : Nat → Nat → Bool
  | 0, _ => false
  | rounds + 1, base =>
    if base < pmm.bitmapSizeFrames then
      if base % 64 = 0 ∧ pmm.bitmap64 (base / 64) = 0xFFFFFFFFFFFFFFFF then
        scanEnds pmm count step rounds (word (wordSub (nextAvailableBit base step) step + step))
      else
        match pmm.consecutiveFree base count 0 with
        | none => true
        | some found =>
          if found = count then true
          else scanEnds pmm count step rounds (word (base + step))
    else true

/-- As many rounds as there are frames left are enough. -/
theorem scan_enough (pmm : PmmOf limit) (addressable : limit ≤ 2 ^ 52) (count : Nat)
    {step rounds more base : Nat} (stepPositive : 0 < step) (stepSmall : step ≤ 2 ^ 52)
    (baseSmall : base < 2 ^ 54) (enough : pmm.bitmapSizeFrames ≤ base + rounds)
    (least : rounds ≤ more) :
    pmm.scan count step more base = pmm.scan count step rounds base := by
  have bound := pmm.framesBound
  induction rounds generalizing more base with
  | zero =>
    have outside : ¬ base < pmm.bitmapSizeFrames := by omega
    cases more with
    | zero => rfl
    | succ more => exact if_neg outside
  | succ rounds ih =>
    obtain ⟨more, rfl⟩ : ∃ rest, more = rest + 1 := ⟨more - 1, by omega⟩
    have fewer : rounds ≤ more := Nat.le_of_succ_le_succ least
    unfold scan
    by_cases inRange : base < pmm.bitmapSizeFrames
    · rw [if_pos inRange, if_pos inRange]
      by_cases full : base % 64 = 0 ∧ pmm.bitmap64 (base / 64) = 0xFFFFFFFFFFFFFFFF
      · rw [if_pos full, if_pos full]
        obtain ⟨beyond, _, nextSmall, _⟩ :=
          nextAvailableBit_eq base step stepPositive (by omega) stepSmall
        rw [word_wordSub_add (by omega) (by omega)]
        exact ih nextSmall (by omega) fewer
      · rw [if_neg full, if_neg full]
        cases pmm.consecutiveFree base count 0 with
        | none => rfl
        | some found =>
          dsimp only
          by_cases all : found = count
          · rw [if_pos all, if_pos all]
          · rw [if_neg all, if_neg all, word_of_lt (by omega)]
            exact ih (by omega) (by omega) fewer
    · rw [if_neg inRange, if_neg inRange]

/-- Every round moves the base up, so the loop ends. -/
theorem scan_ends (pmm : PmmOf limit) (addressable : limit ≤ 2 ^ 52) (count : Nat)
    {step rounds base : Nat} (stepPositive : 0 < step) (stepSmall : step ≤ 2 ^ 52)
    (baseSmall : base < 2 ^ 54) (some : 0 < rounds)
    (enough : pmm.bitmapSizeFrames < base + rounds) :
    pmm.scanEnds count step rounds base = true := by
  have bound := pmm.framesBound
  induction rounds generalizing base with
  | zero => exact absurd some (Nat.lt_irrefl 0)
  | succ rounds ih =>
    unfold scanEnds
    by_cases inRange : base < pmm.bitmapSizeFrames
    · rw [if_pos inRange]
      by_cases full : base % 64 = 0 ∧ pmm.bitmap64 (base / 64) = 0xFFFFFFFFFFFFFFFF
      · rw [if_pos full]
        obtain ⟨beyond, _, nextSmall, _⟩ :=
          nextAvailableBit_eq base step stepPositive (by omega) stepSmall
        rw [word_wordSub_add (by omega) (by omega)]
        exact ih nextSmall (by omega) (by omega)
      · rw [if_neg full]
        cases pmm.consecutiveFree base count 0 with
        | none => rfl
        | some found =>
          dsimp only
          by_cases all : found = count
          · exact if_pos all
          · rw [if_neg all, word_of_lt (by omega)]
            exact ih (by omega) (by omega) (by omega)
    · exact if_neg inRange

/-! ### First fit -/

/-- Plain first fit: the least multiple of the step whose run is free. -/
def FirstFit (pmm : PmmOf limit) (count step base : Nat) : Prop :=
  base % step = 0 ∧ pmm.RunFree base count ∧
    ∀ other < base, other % step = 0 → ¬ pmm.RunFree other count

structure Taken (before after : PmmOf limit) (base count : Nat) : Prop where
  size : after.bitmapSizeFrames = before.bitmapSizeFrames
  bits : ∀ frame, after.used frame =
    (decide (base ≤ frame ∧ frame < base + count) || before.used frame)
  contents : ∀ frame, after.ram frame =
    if base ≤ frame ∧ frame < base + count then (fun _ => PageTableEntry.zero)
    else before.ram frame

theorem claim_taken (pmm : PmmOf limit) (addressable : limit ≤ 2 ^ 52) {base count : Nat}
    (free : pmm.RunFree base count) : Taken pmm (pmm.claim base count) base count := by
  have bound := pmm.framesBound
  have inside := free.1
  constructor
  · exact claim_size pmm base count
  · intro frame
    exact claim_used pmm base count frame
  · intro frame
    exact claim_ram pmm base count frame (by omega)

theorem frameStep_eq (alignment : Nat) : frameStep alignment = max 1 (alignment / 4096) := by
  unfold frameStep
  by_cases small : alignment < 4096
  · rw [if_pos small]
    omega
  · rw [if_neg small]
    omega

theorem FirstFit.unique {pmm : PmmOf limit} {count step first second : Nat}
    (one : pmm.FirstFit count step first) (two : pmm.FirstFit count step second) :
    first = second := by
  rcases Nat.lt_trichotomy first second with before | same | after
  · exact absurd one.2.1 (two.2.2 first before one.1)
  · exact same
  · exact absurd two.2.1 (one.2.2 second after two.1)

/-- One frame more than there are 64-bit frame addresses; frames 0 and 2 ^ 51 are used. -/
def tooManyFrames : PmmOf (2 ^ 53) :=
  { bitmap := fun index => if index = 0 ∨ index = 2 ^ 48 then 1 else 0
    bitmapSizeFrames := 2 ^ 52 + 1
    memoryTotalFrameCount := 2 ^ 52 + 1
    memoryUsedFrameCount := 2
    ram := fun _ _ => PageTableEntry.zero
    totalFrames := rfl
    framesPositive := by decide
    framesBound := by decide }

end PmmOf

end Fesos
