/-
The bitmap as the physical memory manager takes it over from the boot loader.

The loader indexes the bitmap by frame number, up to the highest usable address,
and tells the manager the number of pages of system memory as the bound of its
scan.  The manager can hand out the free frames below that bound.  These are the
usable frames the loader left unmarked only if the bound stays within the bitmap
and no such frame lies above it.
-/

import Fesos.EfiReservation
import Fesos.PmmOwnership

set_option autoImplicit false

namespace Fesos

open Library List

/-! ### What the manager can hand out -/

def Pmm.CanHandOut (pmm : Pmm) (frame : Nat) : Prop :=
  ∃ calls final, Run PmmSystem.step PmmSystem.Admissible { pmm := pmm, live := [] } calls final ∧
    ∃ block ∈ final.live, block.Owns frame

/-- A request aligned to a free frame is answered with it: the only earlier
candidate is frame 0. -/
theorem Pmm.allocate_at (pmm : Pmm) (zeroUsed : pmm.used 0 = true) {frame : Nat}
    (inside : frame < pmm.bitmapSizeFrames) (free : pmm.used frame = false) :
    pmm.pmmAllocateFrames 1 (frame * 4096) = (frame * 4096, pmm.claim frame 1) := by
  have positive : 0 < frame := by
    apply Nat.pos_of_ne_zero
    intro isZero
    rw [isZero, zeroUsed] at free
    cases free
  have bound := pmm.framesBound
  have step : PmmOf.frameStep (frame * 4096) = frame := by
    unfold PmmOf.frameStep
    rw [if_neg (by omega), Nat.mul_div_cancel frame (by decide)]
  have runFree := (pmm.runFree_one frame).mpr ⟨inside, free⟩
  have outcome := pmm.pmmAllocateFrames_outcome 1 (frame * 4096) (by decide) (by decide) (by omega)
  rw [step] at outcome
  generalize pmm.pmmAllocateFrames 1 (frame * 4096) = result at outcome
  cases outcome with
  | exhausted nothing => exact absurd runFree (nothing frame (Nat.zero_le _) (Nat.mod_self _))
  | found start _later aligned startFree least =>
    have notAfter : start ≤ frame := by
      by_contra after
      exact least frame (Nat.zero_le _) (by omega) (Nat.mod_self _) runFree
    have notZero : start ≠ 0 := by
      intro isZero
      have clear := ((pmm.runFree_one start).mp startFree).2
      rw [isZero, zeroUsed] at clear
      cases clear
    have same : start = frame := by
      apply Nat.le_antisymm notAfter
      exact Nat.le_of_dvd (by omega) (Nat.dvd_of_mod_eq_zero aligned)
    rw [same]

theorem Pmm.canHandOut_iff (pmm : Pmm) (zeroUsed : pmm.used 0 = true) (frame : Nat) :
    pmm.CanHandOut frame ↔ frame < pmm.bitmapSizeFrames ∧ pmm.used frame = false := by
  constructor
  · rintro ⟨calls, final, run, block, member, owns⟩
    exact (Ownership.of_run zeroUsed run).handedOut block member frame owns
  · rintro ⟨inside, free⟩
    have bound := pmm.framesBound
    have answer := pmm.allocate_at zeroUsed inside free
    have word : (UInt64.ofNat (frame * 4096)).toNat = frame * 4096 :=
      UInt64.toNat_ofNat_of_lt' (by rw [UInt64.size]; omega)
    have positive : frame * 4096 ≠ 0 := by
      intro isZero
      have frameZero : frame = 0 := by omega
      rw [frameZero, zeroUsed] at free
      cases free
    refine ⟨[.allocate 1 (UInt64.ofNat (frame * 4096))],
      { pmm := pmm.claim frame 1, live := [{ address := frame * 4096, count := 1 }] },
      .cons _ trivial ?_ (.nil _), _, mem_cons_self, ?_⟩
    · change Except.ok _ = Except.ok _
      rw [word]
      change Except.ok (PmmSystem.mk (pmm.pmmAllocateFrames 1 (frame * 4096)).2
        (if (pmm.pmmAllocateFrames 1 (frame * 4096)).1 = 0 then []
        else [{ address := (pmm.pmmAllocateFrames 1 (frame * 4096)).1, count := 1 }])) = _
      rw [answer, if_neg positive]
    · change frame * 4096 / 4096 ≤ frame ∧ frame < frame * 4096 / 4096 + 1
      omega

/-! ### The totals of a memory map -/

def MemoryDescriptor.frames (descriptor : MemoryDescriptor) : List Nat :=
  List.range' (descriptor.physicalStart / 4096) descriptor.numberOfPages

/-- Page-aligned descriptors of 52-bit addresses that do not overlap. -/
structure RegularMap (map : List MemoryDescriptor) : Prop where
  aligned : ∀ descriptor ∈ map, descriptor.physicalStart % 4096 = 0
  inside : ∀ descriptor ∈ map,
    descriptor.physicalStart + 4096 * descriptor.numberOfPages ≤ 2 ^ 52
  apart : (map.flatMap MemoryDescriptor.frames).Nodup

def ramPages (map : List MemoryDescriptor) : Nat :=
  ((map.filter (fun descriptor => descriptor.type.systemRam)).map
    MemoryDescriptor.numberOfPages).sum

def topFrame : List MemoryDescriptor → Nat
  | [] => 0
  | descriptor :: rest =>
    if descriptor.type.usable then
      max (descriptor.physicalStart / 4096 + descriptor.numberOfPages) (topFrame rest)
    else topFrame rest

theorem topFrame_cons (descriptor : MemoryDescriptor) (rest : List MemoryDescriptor) :
    topFrame (descriptor :: rest) =
      if descriptor.type.usable then
        max (descriptor.physicalStart / 4096 + descriptor.numberOfPages) (topFrame rest)
      else topFrame rest := rfl

theorem RegularMap.tail {descriptor : MemoryDescriptor} {rest : List MemoryDescriptor}
    (regular : RegularMap (descriptor :: rest)) : RegularMap rest where
  aligned := fun other member => regular.aligned other (mem_cons_of_mem _ member)
  inside := fun other member => regular.inside other (mem_cons_of_mem _ member)
  apart := by
    have all := regular.apart
    rw [flatMap_cons] at all
    exact (nodup_append.mp all).2.1

theorem usable_systemRam {type : MemoryType} (usable : type.usable = true) :
    type.systemRam = true := by
  cases type <;> first | rfl | cases usable

theorem ramPages_cons (descriptor : MemoryDescriptor) (rest : List MemoryDescriptor) :
    ramPages (descriptor :: rest) =
      (if descriptor.type.systemRam then descriptor.numberOfPages else 0) + ramPages rest := by
  unfold ramPages
  rw [filter_cons]
  split
  · simp
  · simp

theorem ramPages_le (map : List MemoryDescriptor) :
    ramPages map ≤ (map.flatMap MemoryDescriptor.frames).length := by
  induction map with
  | nil => exact Nat.le_refl _
  | cons descriptor rest ih =>
    have length : descriptor.frames.length = descriptor.numberOfPages := length_range'
    rw [ramPages_cons, flatMap_cons, length_append, length]
    split
    · omega
    · omega

variable {map : List MemoryDescriptor}

theorem RegularMap.ramPages_bound (regular : RegularMap map) :
    ramPages map ≤ 2 ^ 40 := by
  have small : map.flatMap MemoryDescriptor.frames ⊆ List.range (2 ^ 40) := by
    intro frame member
    obtain ⟨descriptor, inMap, inFrames⟩ := mem_flatMap.mp member
    have range := mem_range'_1.mp inFrames
    have bound := regular.inside descriptor inMap
    have aligned := regular.aligned descriptor inMap
    apply mem_range.mpr
    omega
  have length := (subperm_of_subset regular.apart small).length_le
  rw [length_range] at length
  exact Nat.le_trans (ramPages_le map) length

theorem foldl_add_count {totals : MemoryTotals}
    (small : totals.physicalMemoryFrameCount + ramPages map < 2 ^ 64) :
    (map.foldl MemoryTotals.add totals).physicalMemoryFrameCount =
      totals.physicalMemoryFrameCount + ramPages map := by
  induction map generalizing totals with
  | nil => rfl
  | cons descriptor rest ih =>
    rw [ramPages_cons] at small
    have added : (totals.add descriptor).physicalMemoryFrameCount =
        totals.physicalMemoryFrameCount +
          (if descriptor.type.systemRam then descriptor.numberOfPages else 0) := by
      unfold MemoryTotals.add
      cases ram : descriptor.type.systemRam with
      | false => rfl
      | true =>
        rw [ram, if_pos rfl] at small
        rw [if_neg (by decide), if_pos rfl]
        cases descriptor.type.usable with
        | false => exact word_of_lt (by omega)
        | true => exact word_of_lt (by omega)
    rw [foldl_cons, ih (by rw [added]; omega), added, ramPages_cons]
    omega

theorem foldl_add_max (regular : RegularMap map)
    (totals : MemoryTotals) :
    (map.foldl MemoryTotals.add totals).maxMemoryAddress =
      max totals.maxMemoryAddress (4096 * topFrame map) := by
  induction map generalizing totals with
  | nil => simp [topFrame]
  | cons descriptor rest ih =>
    have aligned := regular.aligned descriptor mem_cons_self
    have bound := regular.inside descriptor mem_cons_self
    have endAddress : descriptor.endAddress =
        4096 * (descriptor.physicalStart / 4096 + descriptor.numberOfPages) := by
      unfold MemoryDescriptor.endAddress
      rw [word_of_lt (by omega)]
      omega
    have added : (totals.add descriptor).maxMemoryAddress =
        if descriptor.type.usable then max totals.maxMemoryAddress descriptor.endAddress
        else totals.maxMemoryAddress := by
      unfold MemoryTotals.add
      cases usable : descriptor.type.usable with
      | false =>
        cases descriptor.type.systemRam with
        | false => rfl
        | true => rfl
      | true =>
        rw [usable_systemRam usable, if_neg (by decide), if_neg (by decide), if_pos rfl]
        change (if _ > totals.maxMemoryAddress then _ else totals.maxMemoryAddress) = _
        split
        · omega
        · omega
    rw [foldl_cons, ih regular.tail, added, topFrame_cons]
    split
    · rw [endAddress]
      omega
    · rfl

theorem memoryTotals_eq (regular : RegularMap map) :
    (memoryTotals map).physicalMemoryFrameCount = ramPages map ∧
      (memoryTotals map).bitmapSizeBytes = (topFrame map + 7) / 8 := by
  have bound := regular.ramPages_bound
  have count : (memoryTotals map).physicalMemoryFrameCount = 0 + ramPages map :=
    foldl_add_count (by change 0 + _ < _; omega)
  have top : (memoryTotals map).maxMemoryAddress = max 0 (4096 * topFrame map) :=
    foldl_add_max regular _
  have topBound : 4096 * topFrame map ≤ 2 ^ 52 := by
    clear count top bound
    induction map with
    | nil => decide
    | cons descriptor rest ih =>
      have rest := ih regular.tail
      have first := regular.inside descriptor mem_cons_self
      rw [topFrame_cons]
      split
      · omega
      · exact rest
  constructor
  · rw [count, Nat.zero_add]
  · unfold MemoryTotals.bitmapSizeBytes
    rw [top, Nat.zero_max, word_of_lt (by omega)]
    omega

/-! ### Taking over the bitmap -/

/-- `pmm_init`. -/
def Loader.pmmInit (loader : Loader) (positive : 0 < loader.memoryPhysicalTotalFrames)
    (bound : loader.memoryPhysicalTotalFrames ≤ 2 ^ 40) : Pmm :=
  { bitmap := loader.bitmap
    bitmapSizeFrames := loader.memoryPhysicalTotalFrames
    memoryTotalFrameCount := loader.memoryPhysicalTotalFrames
    memoryUsedFrameCount := loader.memoryPhysicalUsedFrames
    ram := loader.ram
    totalFrames := rfl
    framesPositive := positive
    framesBound := bound }

namespace Loader

def LeftFree (map : List MemoryDescriptor) (loader : Loader) (frame : Nat) : Prop :=
  UsableFrame map frame ∧ frame ∉ loader.marked

theorem usableFrame_ram {map : List MemoryDescriptor} (regular : RegularMap map) {frame : Nat}
    (usable : UsableFrame map frame) : 0 < ramPages map := by
  obtain ⟨descriptor, member, isUsable, covers⟩ := usable
  have aligned := regular.aligned descriptor member
  have bound := regular.inside descriptor member
  have nonempty : 0 < descriptor.numberOfPages := by
    unfold MemoryDescriptor.Covers MemoryDescriptor.endAddress at covers
    rw [word_of_lt (by omega), word_of_lt (by omega)] at covers
    omega
  have inRam : descriptor ∈ map.filter (fun other => other.type.systemRam) :=
    mem_filter.mpr ⟨member, usable_systemRam isUsable⟩
  have part : descriptor.numberOfPages ≤ ramPages map :=
    single_le_sum (fun _ _ => Nat.zero_le _) _ (mem_map_of_mem inRam)
  omega

theorem Boot.clear_iff {kernel : Vmm} {firmware : Firmware} {start final : Loader}
    (boot : Boot kernel firmware start final) (unmarked : start.marked = []) {frame : Nat}
    (inside : frame / 8 < boot.totals.bitmapSizeBytes) :
    final.noted frame = false ↔ LeftFree boot.second final frame := by
  obtain ⟨marks, marked, bits⟩ := boot.isReserved.marks.trans boot.proceeds.grown.marks
  rw [boot.isBuilt.marked, unmarked, append_nil] at marked
  unfold LeftFree
  rw [bits, boot.isBuilt.bits, decide_eq_true inside, Bool.true_or, Bool.and_true, marked]
  simp only [Bool.or_eq_false_iff, decide_eq_false_iff_not, Bool.not_eq_false',
    decide_eq_true_eq]
  exact and_comm

theorem Boot.frameZero {kernel : Vmm} {firmware : Firmware} {start final : Loader}
    (boot : Boot kernel firmware start final) : final.noted 0 = true :=
  boot.proceeds.grown.noted ((boot.isReserved.bits 0).mpr (Or.inr (Or.inr (Or.inl rfl))))

def wholeMemory : List MemoryDescriptor :=
  [{ type := .conventionalMemory, physicalStart := 0, numberOfPages := 64 }]

/-- The manager hands out the usable frames the loader left unmarked, and scans no
further than the bitmap and no less than these frames, exactly when the pages of
system memory are at most the bits of the bitmap and no such frame lies above them. -/
theorem pmm_hands_out_left_free_iff (firmware : Firmware) (start final : Loader)
    (first second : List MemoryDescriptor) (reportedFirst : firmware.memoryMap 0 = .ok first)
    (reportedSecond : firmware.memoryMap 1 = .ok second) (regular : RegularMap first)
    (sameMemory : ∀ frame, UsableFrame first frame ↔ UsableFrame second frame)
    (unmarked : start.marked = []) (ran : start.efiMain firmware = .ok final)
    (usable : ∀ frame ∈ final.handedOut, UsableFrame first frame) :
    ∃ positive bound,
      ((∀ frame, (final.pmmInit positive bound).CanHandOut frame ↔ LeftFree first final frame) ∧
        (final.pmmInit positive bound).bitmapSizeFrames ≤ 8 * final.memoryBitmapSize ∧
        ∀ frame, LeftFree first final frame →
          frame < (final.pmmInit positive bound).bitmapSizeFrames) ↔
      (ramPages first ≤ 8 * ((topFrame first + 7) / 8) ∧
        ∀ frame, LeftFree first final frame → frame < ramPages first) := by
  obtain ⟨boot⟩ := efiMain_ok Vmm.emptyTables ran
  have totals : boot.totals = memoryTotals first := by
    obtain ⟨map, reported, isTotals⟩ := boot.isBuilt.firstMap
    rw [reportedFirst] at reported
    cases reported
    exact isTotals
  have maps : boot.second = second := by
    have reported := boot.isBuilt.secondMap
    rw [reportedSecond] at reported
    cases reported
    rfl
  have figures := memoryTotals_eq regular
  have grown := boot.proceeds.grown
  have total : final.memoryPhysicalTotalFrames = ramPages first := by
    rw [grown.totalFrames, boot.isReserved.totalFrames, totals, figures.1]
  have size : final.memoryBitmapSize = (topFrame first + 7) / 8 := by
    rw [grown.bitmapSize, boot.isReserved.bitmapSize, totals, figures.2]
  have positive : 0 < final.memoryPhysicalTotalFrames := by
    rw [total]
    exact usableFrame_ram regular (usable _ (grown.handedOut boot.root_handedOut))
  have bound : final.memoryPhysicalTotalFrames ≤ 2 ^ 40 := total ▸ regular.ramPages_bound
  refine ⟨positive, bound, ?_⟩
  change ((∀ frame, (final.pmmInit positive bound).CanHandOut frame ↔ _) ∧
    final.memoryPhysicalTotalFrames ≤ _ ∧
    ∀ frame, _ → frame < final.memoryPhysicalTotalFrames) ↔ _
  rw [total, size]
  constructor
  · intro holds
    exact holds.2
  · rintro ⟨within, below⟩
    refine ⟨?_, within, below⟩
    intro frame
    rw [Pmm.canHandOut_iff (final.pmmInit positive bound) boot.frameZero]
    change frame < final.memoryPhysicalTotalFrames ∧ final.noted frame = false ↔ _
    rw [total]
    have sameFree : LeftFree boot.second final frame ↔ LeftFree first final frame := by
      unfold LeftFree
      rw [maps, sameMemory frame]
    constructor
    · rintro ⟨inBound, clear⟩
      have inside : frame / 8 < boot.totals.bitmapSizeBytes := by
        rw [totals, figures.2]
        omega
      exact sameFree.mp ((boot.clear_iff unmarked inside).mp clear)
    · intro left
      have inBound := below frame left
      have inside : frame / 8 < boot.totals.bitmapSizeBytes := by
        rw [totals, figures.2]
        omega
      exact ⟨inBound, (boot.clear_iff unmarked inside).mpr (sameFree.mpr left)⟩

theorem pmm_hands_out_left_free_iff_wholeMemory :
    ∃ final, coldStart.efiMain (bootFirmware wholeMemory) = .ok final ∧
      ∃ positive bound, ∀ frame, (final.pmmInit positive bound).CanHandOut frame ↔
        LeftFree wholeMemory final frame := by
  obtain ⟨final, ran, handed⟩ : ∃ final,
      coldStart.efiMain (bootFirmware wholeMemory) = .ok final ∧ final.handedOut = bootFrames :=
    exists_of_checked _ (by decide +kernel)
  have regular : RegularMap wholeMemory :=
    { aligned := by decide
      inside := by decide
      apart := by decide }
  have below : ∀ frame, LeftFree wholeMemory final frame → frame < 64 := by
    rintro frame ⟨⟨descriptor, member, _usable, covers⟩, _unmarked⟩
    rw [mem_singleton.mp member] at covers
    exact covers.2
  obtain ⟨positive, bound, iff⟩ := pmm_hands_out_left_free_iff (bootFirmware wholeMemory) coldStart
    final wholeMemory wholeMemory rfl rfl regular (fun _ => Iff.rfl) rfl ran
    (by rw [handed]; decide)
  exact ⟨final, ran, positive, bound, (iff.mpr ⟨by decide, below⟩).1⟩

/-- With a hole in memory the frames above it stay free but are never scanned. -/
theorem pmm_misses_usable_frames :
    ∃ final, coldStart.efiMain (bootFirmware splitMemory) = .ok final ∧
      RegularMap splitMemory ∧ (∀ frame ∈ final.handedOut, UsableFrame splitMemory frame) ∧
      ∃ positive bound, LeftFree splitMemory final 256 ∧
        ¬ (final.pmmInit positive bound).CanHandOut 256 := by
  obtain ⟨final, ran, handed, total, unmarked, zeroNoted⟩ : ∃ final,
      coldStart.efiMain (bootFirmware splitMemory) = .ok final ∧ final.handedOut = bootFrames ∧
        final.memoryPhysicalTotalFrames = 48 ∧ 256 ∉ final.marked ∧ final.noted 0 = true :=
    exists_of_checked _ (by decide +kernel)
  have regular : RegularMap splitMemory :=
    { aligned := by decide
      inside := by decide
      apart := by decide }
  refine ⟨final, ran, regular, by rw [handed]; decide, by omega, by omega,
    ⟨by decide, unmarked⟩, ?_⟩
  intro handsOut
  have inside := ((Pmm.canHandOut_iff (final.pmmInit _ _) zeroNoted 256).mp handsOut).1
  change 256 < final.memoryPhysicalTotalFrames at inside
  omega

end Loader

end Fesos
