/-
The counter of used frames beside the bitmap.

Allocation counts every frame it marks.  Release clears bits and never counts
down, so the counter follows the bitmap exactly along runs that free nothing.
-/

import Fesos.PmmOwnership

set_option autoImplicit false

namespace Fesos

open Library

namespace PmmOf

variable {limit : Nat}

def usedFrames (pmm : PmmOf limit) : Finset Nat :=
  (Finset.range pmm.bitmapSizeFrames).filter (fun frame => pmm.used frame = true)

theorem mem_usedFrames {pmm : PmmOf limit} {frame : Nat} :
    frame ∈ pmm.usedFrames ↔ frame < pmm.bitmapSizeFrames ∧ pmm.used frame = true := by
  unfold usedFrames
  rw [Finset.mem_filter, Finset.mem_range]

theorem usedFrames_card_le (pmm : PmmOf limit) : pmm.usedFrames.card ≤ pmm.bitmapSizeFrames := by
  unfold usedFrames
  calc
    _ ≤ (Finset.range pmm.bitmapSizeFrames).card := Finset.card_filter_le _ _
    _ = pmm.bitmapSizeFrames := Finset.card_range _

/-- Claiming free frames adds exactly these frames to the used ones. -/
theorem usedFrames_claim {pmm : PmmOf limit} {start count : Nat} (free : pmm.RunFree start count) :
    (pmm.claim start count).usedFrames.card = pmm.usedFrames.card + count := by
  have joined : (pmm.claim start count).usedFrames =
      pmm.usedFrames ∪ Finset.Ico start (start + count) := by
    ext frame
    rw [Finset.mem_union, mem_usedFrames, mem_usedFrames, Finset.mem_Ico, claim_size, claim_used,
      Bool.or_eq_true, decide_eq_true_eq]
    have inside := free.1
    constructor
    · intro both
      rcases both.2 with claimed | before
      · exact Or.inr claimed
      · exact Or.inl ⟨both.1, before⟩
    · intro either
      rcases either with before | claimed
      · exact ⟨before.1, Or.inr before.2⟩
      · exact ⟨by omega, Or.inl claimed⟩
  have apart : Disjoint pmm.usedFrames (Finset.Ico start (start + count)) := by
    apply Finset.disjoint_left.mpr
    intro frame busy claimed
    obtain ⟨lower, upper⟩ := Finset.mem_Ico.mp claimed
    have clear := free.2 frame lower upper
    rw [(mem_usedFrames.mp busy).2] at clear
    cases clear
  rw [joined, Finset.card_union_of_disjoint apart, Nat.card_Ico, Nat.add_sub_cancel_left]

theorem claim_count (pmm : PmmOf limit) (start count : Nat) :
    word (pmm.claim start count).memoryUsedFrameCount =
      word (pmm.memoryUsedFrameCount + count) := by
  induction count generalizing pmm start with
  | zero => rfl
  | succ count ih =>
    have counted : (((pmm.setBitmapBit start).pmmZeroPage
        (word (start * 4096))).countUsed).memoryUsedFrameCount =
        word (pmm.memoryUsedFrameCount + 1) := rfl
    rw [claim, ih, counted]
    unfold word
    omega

theorem claim_count_of_lt (pmm : PmmOf limit) (start count : Nat)
    (bound : pmm.memoryUsedFrameCount + count < 2 ^ 64) :
    (pmm.claim start count).memoryUsedFrameCount = pmm.memoryUsedFrameCount + count := by
  induction count generalizing pmm start with
  | zero => rfl
  | succ count ih =>
    have counted : (((pmm.setBitmapBit start).pmmZeroPage
        (word (start * 4096))).countUsed).memoryUsedFrameCount =
        pmm.memoryUsedFrameCount + 1 := by
      change word (pmm.memoryUsedFrameCount + 1) = _
      exact word_of_lt (by omega)
    rw [claim, ih _ _ (by rw [counted]; omega), counted]
    omega

end PmmOf

/-- The counter moved by as much as the number of used frames, and no further than
the total when it started exact. -/
structure Counted (initial pmm : Pmm) : Prop where
  size : pmm.bitmapSizeFrames = initial.bitmapSizeFrames
  moved : word (pmm.memoryUsedFrameCount + initial.usedFrames.card) =
    word (initial.memoryUsedFrameCount + pmm.usedFrames.card)
  exact : initial.memoryUsedFrameCount = initial.usedFrames.card →
    pmm.memoryUsedFrameCount = pmm.usedFrames.card

theorem Counted.claim {initial pmm : Pmm} (counted : Counted initial pmm) {start count : Nat}
    (free : pmm.RunFree start count) : Counted initial (pmm.claim start count) where
  size := (PmmOf.claim_size _ _ _).trans counted.size
  moved := by
    have grown := PmmOf.claim_count pmm start count
    have moved := counted.moved
    rw [PmmOf.usedFrames_claim free]
    unfold word at grown moved ⊢
    omega
  exact := by
    intro consistent
    have inside := free.1
    have bound := pmm.framesBound
    have before := counted.exact consistent
    have few := (pmm.claim start count).usedFrames_card_le
    rw [PmmOf.usedFrames_claim free, PmmOf.claim_size] at few
    rw [PmmOf.claim_count_of_lt _ _ _ (by omega), PmmOf.usedFrames_claim free, before]

/-- Frees are what the counter does not follow. -/
def PmmSystem.KeepsCount : PmmCall → Prop
  | .allocate _ _ => True
  | .free _ => False

/-- Over every run without a free the counter moves with the bitmap, and from an
exact count it never exceeds the total. -/
theorem pmm_run_counts (initial : Pmm) (calls : List PmmCall) (final : PmmSystem)
    (run : Run PmmSystem.step
      (fun system call => system.Admissible call ∧ PmmSystem.KeepsCount call)
      { pmm := initial, live := [] } calls final) :
    word (final.pmm.memoryUsedFrameCount + initial.usedFrames.card) =
      word (initial.memoryUsedFrameCount + final.pmm.usedFrames.card) ∧
    (initial.memoryUsedFrameCount = initial.usedFrames.card →
      final.pmm.memoryUsedFrameCount ≤ final.pmm.memoryTotalFrameCount) := by
  have counted : Counted initial final.pmm := by
    apply run.invariant (fun system => Counted initial system.pmm)
    · exact ⟨rfl, rfl, fun consistent => consistent⟩
    · intro system call next before legal returned
      cases call with
      | allocate count alignment =>
        cases returned
        rcases pmmAllocateFrames_cases system.pmm count.toNat alignment.toNat
            alignment.toNat_lt with refused | ⟨start, _positive, free, answer⟩
        · rw [refused]
          exact before
        · rw [answer]
          exact before.claim free
      | free block => exact absurd legal.2 id
  refine ⟨counted.moved, ?_⟩
  intro consistent
  rw [counted.exact consistent, final.pmm.totalFrames]
  exact final.pmm.usedFrames_card_le

theorem pmm_run_counts_eightFrames :
    ∃ final, Run PmmSystem.step
        (fun system call => system.Admissible call ∧ PmmSystem.KeepsCount call)
        { pmm := eightFrames, live := [] } [.allocate 2 0x2000, .allocate 1 0x1000] final ∧
      final.pmm.memoryUsedFrameCount ≤ final.pmm.memoryTotalFrameCount := by
  have run : Run PmmSystem.step
      (fun system call => system.Admissible call ∧ PmmSystem.KeepsCount call)
      { pmm := eightFrames, live := [] } [.allocate 2 0x2000, .allocate 1 0x1000] _ :=
    .cons _ ⟨trivial, trivial⟩ rfl (.cons _ ⟨trivial, trivial⟩ rfl (.nil _))
  exact ⟨_, run, (pmm_run_counts eightFrames _ _ run).2 (by decide)⟩

/-- After a frame was allocated and freed the bitmap is as before and the counter is not. -/
theorem pmm_run_count_drifts :
    ∃ final, Run PmmSystem.step PmmSystem.Admissible { pmm := eightFrames, live := [] }
        [.allocate 1 0x1000, .free ⟨0x1000, 1⟩] final ∧
      final.pmm.usedFrames = eightFrames.usedFrames ∧
      final.pmm.memoryUsedFrameCount = eightFrames.memoryUsedFrameCount + 1 ∧
      word (final.pmm.memoryUsedFrameCount + eightFrames.usedFrames.card) ≠
        word (eightFrames.memoryUsedFrameCount + final.pmm.usedFrames.card) := by
  have run : Run PmmSystem.step PmmSystem.Admissible { pmm := eightFrames, live := [] }
      [.allocate 1 0x1000, .free ⟨0x1000, 1⟩] _ :=
    .cons _ trivial rfl (.cons _ (List.mem_singleton.mpr rfl) rfl (.nil _))
  exact ⟨_, run, by decide +kernel, by decide +kernel, by decide +kernel⟩

end Fesos
