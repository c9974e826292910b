/-
What one allocation of memory/pmm.c does: the scan with its 64-frame skip and its
early return finds the least aligned run of free frames, and claiming that run
changes exactly its bits and its frames' contents.
-/

import Fesos.Pmm

set_option autoImplicit false

namespace Fesos
namespace PmmOf

variable {limit : Nat}

/-! ### Claiming and releasing a run of frames -/

@[simp] theorem claim_size (pmm : PmmOf limit) (frame count : Nat) :
    (pmm.claim frame count).bitmapSizeFrames = pmm.bitmapSizeFrames := by
  induction count generalizing pmm frame with
  | zero => rfl
  | succ count ih =>
    simp only [claim]
    rw [ih]
    rfl

theorem claim_used (pmm : PmmOf limit) (start count frame : Nat) :
    (pmm.claim start count).used frame =
      (decide (start ≤ frame ∧ frame < start + count) || pmm.used frame) := by
  induction count generalizing pmm start with
  | zero => simp [claim]
  | succ count ih =>
    simp only [claim]
    rw [ih, countUsed_used, pmmZeroPage_used, setBitmapBit_used, ← Bool.or_assoc]
    congr 1
    rw [← Bool.decide_or]
    apply decide_eq_decide.mpr
    omega

theorem claim_ram (pmm : PmmOf limit) (start count frame : Nat)
    (addressable : start + count ≤ 2 ^ 52) :
    (pmm.claim start count).ram frame =
      if start ≤ frame ∧ frame < start + count then (fun _ => PageTableEntry.zero)
      else pmm.ram frame := by
  induction count generalizing pmm start with
  | zero => simp [claim]
  | succ count ih =>
    have place : word (start * 4096) / 4096 = start := by
      rw [word_of_lt (by omega)]
      exact Nat.mul_div_cancel _ (by decide)
    simp only [claim]
    rw [ih _ _ (by omega)]
    by_cases later : start + 1 ≤ frame ∧ frame < start + 1 + count
    · have inside : start ≤ frame ∧ frame < start + (count + 1) := by omega
      rw [if_pos later, if_pos inside]
    rw [if_neg later]
    by_cases same : frame = start
    · have inside : start ≤ frame ∧ frame < start + (count + 1) := by omega
      rw [if_pos inside]
      subst frame
      simp [countUsed, pmmZeroPage, place]
    · have outside : ¬ (start ≤ frame ∧ frame < start + (count + 1)) := by omega
      rw [if_neg outside]
      simp [countUsed, pmmZeroPage, setBitmapBit, storeByte, place, Function.update_of_ne same]

/-- Releasing a run of used frames succeeds and clears exactly its bits. -/
theorem release_ok (pmm : PmmOf limit) (start count : Nat)
    (allUsed : ∀ frame, start ≤ frame → frame < start + count → pmm.used frame = true) :
    ∃ after, pmm.release start count = .ok after ∧
      after.bitmapSizeFrames = pmm.bitmapSizeFrames ∧ after.ram = pmm.ram ∧
      ∀ frame, after.used frame =
        (decide (¬ (start ≤ frame ∧ frame < start + count)) && pmm.used frame) := by
  induction count generalizing pmm start with
  | zero =>
    refine ⟨pmm, rfl, rfl, rfl, ?_⟩
    intro frame
    simp
  | succ count ih =>
    have firstUsed : pmm.getBitmapBit start ≠ 0 := by
      rw [Ne, getBitmapBit_eq_zero_iff, allUsed start (Nat.le_refl _) (by omega)]
      decide
    obtain ⟨after, released, size, ram, bits⟩ :=
      ih (pmm.unsetBitmapBit start) (start + 1) (by
        intro frame lower upper
        rw [unsetBitmapBit_used, allUsed frame (by omega) (by omega)]
        have different : frame ≠ start := by omega
        simp [different])
    refine ⟨after, ?_, size, ram, ?_⟩
    · simp only [release, if_neg firstUsed]
      exact released
    · intro frame
      rw [bits, unsetBitmapBit_used, ← Bool.and_assoc]
      congr 1
      rw [← Bool.decide_and]
      apply decide_eq_decide.mpr
      omega

/-! ### The search loops -/

def RunFree (pmm : PmmOf limit) (base count : Nat) : Prop :=
  base + count ≤ pmm.bitmapSizeFrames ∧
    ∀ frame, base ≤ frame → frame < base + count → pmm.used frame = false

theorem runFree_one (pmm : PmmOf limit) (frame : Nat) :
    pmm.RunFree frame 1 ↔ frame < pmm.bitmapSizeFrames ∧ pmm.used frame = false := by
  constructor
  · intro run
    exact ⟨run.1, run.2 frame (Nat.le_refl _) (Nat.lt_succ_self _)⟩
  · intro free
    apply And.intro free.1
    intro other lower upper
    have same : other = frame := by omega
    rw [same]
    exact free.2

theorem consecutiveFree_none (pmm : PmmOf limit) (base remaining found : Nat)
    (addressable : limit ≤ 2 ^ 52) (seen : base + found ≤ pmm.bitmapSizeFrames)
    (ended : pmm.consecutiveFree base remaining found = none) :
    pmm.bitmapSizeFrames < base + found + remaining := by
  have bound := pmm.framesBound
  induction remaining generalizing found with
  | zero => simp [consecutiveFree] at ended
  | succ remaining ih =>
    have exact64 : word (base + found) = base + found := word_of_lt (by omega)
    simp only [consecutiveFree, exact64] at ended
    by_cases outside : pmm.bitmapSizeFrames ≤ base + found
    · omega
    rw [if_neg outside] at ended
    by_cases busy : pmm.getBitmapBit (base + found) ≠ 0
    · rw [if_pos busy] at ended
      cases ended
    · rw [if_neg busy] at ended
      have later := ih (found + 1) (by omega) ended
      omega

theorem consecutiveFree_some (pmm : PmmOf limit) (base remaining found result : Nat)
    (addressable : limit ≤ 2 ^ 52) (seen : base + found ≤ pmm.bitmapSizeFrames)
    (ended : pmm.consecutiveFree base remaining found = some result) :
    (result = found + remaining ∧ base + result ≤ pmm.bitmapSizeFrames ∧
      ∀ frame, base + found ≤ frame → frame < base + result → pmm.used frame = false) ∨
    (found ≤ result ∧ result < found + remaining ∧ pmm.used (base + result) = true) := by
  have bound := pmm.framesBound
  induction remaining generalizing found with
  | zero =>
    left
    simp only [consecutiveFree, Option.some.injEq] at ended
    refine ⟨by omega, by omega, ?_⟩
    intro frame lower upper
    omega
  | succ remaining ih =>
    have exact64 : word (base + found) = base + found := word_of_lt (by omega)
    simp only [consecutiveFree, exact64] at ended
    by_cases outside : pmm.bitmapSizeFrames ≤ base + found
    · rw [if_pos outside] at ended
      cases ended
    rw [if_neg outside] at ended
    by_cases busy : pmm.getBitmapBit (base + found) ≠ 0
    · rw [if_pos busy] at ended
      cases ended
      right
      refine ⟨Nat.le_refl _, by omega, ?_⟩
      rw [Ne, getBitmapBit_eq_zero_iff] at busy
      simpa using busy
    · rw [if_neg busy] at ended
      have here : pmm.used (base + found) = false :=
        (getBitmapBit_eq_zero_iff pmm (base + found)).mp (not_not.mp busy)
      rcases ih (found + 1) (by omega) ended with complete | stopped
      · left
        obtain ⟨total, inside, free⟩ := complete
        refine ⟨by omega, inside, ?_⟩
        intro frame lower upper
        by_cases same : frame = base + found
        · rw [same]
          exact here
        · exact free frame (by omega) upper
      · right
        obtain ⟨lower, upper, busyAt⟩ := stopped
        exact ⟨by omega, by omega, busyAt⟩

theorem nextAvailableBit_eq (base step : Nat) (stepPositive : 0 < step)
    (baseSmall : base < 2 ^ 52) (stepSmall : step ≤ 2 ^ 52) :
    base + 64 ≤ nextAvailableBit base step ∧
      nextAvailableBit base step % step = 0 ∧
      nextAvailableBit base step < 2 ^ 54 ∧
      ∀ other, base + 64 ≤ other → other % step = 0 →
        nextAvailableBit base step ≤ other := by
  have remainderSmall := Nat.mod_lt (base + 64) stepPositive
  have division := Nat.div_add_mod (base + 64) step
  unfold nextAvailableBit
  rw [word_of_lt (by omega : base + 64 < 2 ^ 64)]
  by_cases exactMultiple : (base + 64) % step = 0
  · simp only [exactMultiple, ne_eq, not_true_eq_false, if_false]
    exact ⟨Nat.le_refl _, trivial, by omega, fun other later _ => later⟩
  simp only [ne_eq, exactMultiple, not_false_eq_true, if_true]
  rw [word_of_lt (by omega)]
  have rounded : base + 64 + (step - (base + 64) % step) =
      step * ((base + 64) / step + 1) := by
    rw [Nat.mul_add, Nat.mul_one]
    omega
  refine ⟨by omega, ?_, by omega, ?_⟩
  · rw [rounded]
    exact Nat.mul_mod_right step _
  · intro other later multiple
    rw [rounded]
    obtain ⟨quotient, rfl⟩ := Nat.dvd_of_mod_eq_zero multiple
    have larger : (base + 64) / step < quotient := by
      rw [Nat.div_lt_iff_lt_mul stepPositive]
      by_contra notLarger
      have same : step * quotient = base + 64 := by
        rw [Nat.mul_comm] at notLarger
        omega
      exact exactMultiple (by rw [← same]; exact Nat.mul_mod_right step quotient)
    exact Nat.mul_le_mul_left step larger

/-- The outcome of the scan from `base` on: the least aligned free run, or
nothing when there is none. -/
inductive ScanOutcome (pmm : PmmOf limit) (count step base : Nat) : Nat × PmmOf limit → Prop where
  | found (start : Nat) (later : base ≤ start) (aligned : start % step = 0)
      (free : pmm.RunFree start count)
      (least : ∀ other, base ≤ other → other < start → other % step = 0 →
        ¬ pmm.RunFree other count) :
      ScanOutcome pmm count step base (start * 4096, pmm.claim start count)
  | exhausted
      (none : ∀ other, base ≤ other → other % step = 0 → ¬ pmm.RunFree other count) :
      ScanOutcome pmm count step base (0, pmm)

theorem ScanOutcome.weaken {pmm : PmmOf limit} {count step base next : Nat} {result : Nat × PmmOf limit}
    (outcome : ScanOutcome pmm count step next result) (order : base ≤ next)
    (skipped : ∀ other, base ≤ other → other < next → other % step = 0 →
      ¬ pmm.RunFree other count) :
    ScanOutcome pmm count step base result := by
  cases outcome with
  | found start later aligned free least =>
    refine .found start (by omega) aligned free ?_
    intro other lower upper multiple
    by_cases before : other < next
    · exact skipped other lower before multiple
    · exact least other (by omega) upper multiple
  | exhausted nothing =>
    refine .exhausted ?_
    intro other lower multiple
    by_cases before : other < next
    · exact skipped other lower before multiple
    · exact nothing other (by omega) multiple

theorem multiple_next {base other step : Nat} (stepPositive : 0 < step)
    (aligned : base % step = 0) (multiple : other % step = 0)
    (lower : base ≤ other) (upper : other < base + step) : other = base := by
  obtain ⟨first, rfl⟩ := Nat.dvd_of_mod_eq_zero aligned
  obtain ⟨second, rfl⟩ := Nat.dvd_of_mod_eq_zero multiple
  have upperIndex : second < first + 1 := by
    apply Nat.lt_of_mul_lt_mul_left (a := step)
    rw [Nat.mul_add, Nat.mul_one]
    exact upper
  have lowerIndex : first ≤ second := Nat.le_of_mul_le_mul_left lower stepPositive
  have same : second = first := by omega
  rw [same]

theorem scan_outcome (pmm : PmmOf limit) (count step rounds base : Nat)
    (addressable : limit ≤ 2 ^ 52) (countPositive : 0 < count) (stepPositive : 0 < step)
    (stepSmall : step ≤ 2 ^ 52) (aligned : base % step = 0) (baseSmall : base < 2 ^ 54)
    (enough : pmm.bitmapSizeFrames ≤ base + rounds) :
    ScanOutcome pmm count step base (pmm.scan count step rounds base) := by
  have bound := pmm.framesBound
  induction rounds generalizing base with
  | zero =>
    refine .exhausted ?_
    intro other lower _multiple free
    have inside := free.1
    omega
  | succ rounds ih =>
    simp only [scan]
    by_cases inRange : base < pmm.bitmapSizeFrames
    · rw [if_pos inRange]
      by_cases full : base % 64 = 0 ∧ pmm.bitmap64 (base / 64) = 0xFFFFFFFFFFFFFFFF
      · rw [if_pos full]
        obtain ⟨beyond, multiple, nextSmall, closest⟩ :=
          nextAvailableBit_eq base step stepPositive (by omega) stepSmall
        rw [word_wordSub_add (by omega) (by omega)]
        refine (ih (nextAvailableBit base step) multiple (by omega) (by omega)).weaken
          (by omega) ?_
        intro other lower upper otherMultiple free
        have inWord : other < base + 64 := by
          by_contra outside
          have := closest other (by omega) otherMultiple
          omega
        have busy := used_of_bitmap64_full pmm base other full.1 full.2 lower inWord
        rw [free.2 other (Nat.le_refl _) (by omega)] at busy
        cases busy
      · rw [if_neg full]
        have stepExact : word (base + step) = base + step := word_of_lt (by omega)
        cases ended : pmm.consecutiveFree base count 0 with
        | none =>
          have short := consecutiveFree_none pmm base count 0 addressable (by omega) ended
          refine .exhausted ?_
          intro other lower _multiple free
          have inside := free.1
          omega
        | some found =>
          simp only
          rcases consecutiveFree_some pmm base count 0 found addressable (by omega) ended with
            complete | stopped
          · obtain ⟨total, inside, free⟩ := complete
            have all : found = count := by omega
            rw [if_pos all, word_of_lt (by omega : base * 4096 < 2 ^ 64)]
            refine .found base (Nat.le_refl _) aligned ⟨by omega, ?_⟩ ?_
            · intro frame lower upper
              exact free frame (by omega) (by omega)
            · intro other lower upper
              omega
          · obtain ⟨_lower, upper, busy⟩ := stopped
            have notAll : found ≠ count := by omega
            rw [if_neg notAll, stepExact]
            refine (ih (base + step)
              (by rw [Nat.add_mod_right]; exact aligned)
              (by omega) (by omega)).weaken (by omega) ?_
            intro other lower before multiple free
            have same := multiple_next stepPositive aligned multiple lower before
            rw [same] at free
            have clear := free.2 (base + found) (by omega) (by omega)
            rw [busy] at clear
            cases clear
    · rw [if_neg inRange]
      refine .exhausted ?_
      intro other lower _multiple free
      have inside := free.1
      omega

def frameStep (alignment : Nat) : Nat :=
  (if alignment < 4096 then 4096 else alignment) / 4096

theorem frameStep_pos (alignment : Nat) : 0 < frameStep alignment := by
  unfold frameStep
  split <;> omega

theorem pmmAllocateFrames_outcome (pmm : PmmOf limit) (count alignment : Nat)
    (addressable : limit ≤ 2 ^ 52) (countPositive : 0 < count) (alignmentWord : alignment < 2 ^ 64) :
    ScanOutcome pmm count (frameStep alignment) 0 (pmm.pmmAllocateFrames count alignment) := by
  have notZero : count ≠ 0 := by omega
  unfold pmmAllocateFrames
  rw [if_neg notZero]
  apply scan_outcome pmm count _ _ 0 addressable countPositive (frameStep_pos alignment)
  · unfold frameStep
    split <;> omega
  · exact Nat.zero_mod _
  · decide
  · omega

end PmmOf
end Fesos
