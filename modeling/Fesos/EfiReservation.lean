/-
The frames the boot loader reserves for the kernel.

After the bitmap was built bits are only set, each for a frame handed out by the
firmware, so what is noted stays noted.  Every table is noted where it is created
and every frame of a segment where it is loaded.  The frames of the stack are not
noted, and since no frame is handed out twice nothing else notes them: the frame
the stack page is mapped to is marked used only by accident.
-/

import Fesos.EfiSegments

set_option autoImplicit false

namespace Fesos

open Library List

def MemoryDescriptor.Covers (descriptor : MemoryDescriptor) (frame : Nat) : Prop :=
  word (descriptor.physicalStart + 4095) / 4096 ≤ frame ∧ frame < descriptor.endAddress / 4096

instance (descriptor : MemoryDescriptor) (frame : Nat) : Decidable (descriptor.Covers frame) :=
  inferInstanceAs (Decidable (_ ∧ _))

def UsableFrame (map : List MemoryDescriptor) (frame : Nat) : Prop :=
  ∃ descriptor ∈ map, descriptor.type.usable = true ∧ descriptor.Covers frame

instance (map : List MemoryDescriptor) (frame : Nat) : Decidable (UsableFrame map frame) :=
  inferInstanceAs (Decidable (∃ descriptor ∈ map, _))

theorem usableFrame_cons (descriptor : MemoryDescriptor) (rest : List MemoryDescriptor)
    (frame : Nat) :
    UsableFrame (descriptor :: rest) frame ↔
      (descriptor.type.usable = true ∧ descriptor.Covers frame) ∨ UsableFrame rest frame := by
  unfold UsableFrame
  exact exists_mem_cons_iff _ _ _

namespace Loader

/-! ### The bitmap -/

theorem unsetBits_noted (loader : Loader) (bit remaining frame : Nat) :
    (loader.unsetBits bit remaining).noted frame =
      (!decide (bit ≤ frame ∧ frame < bit + remaining) && loader.noted frame) := by
  induction remaining generalizing bit loader with
  | zero =>
    have empty : ¬ (bit ≤ frame ∧ frame < bit + 0) := by omega
    rw [decide_eq_false empty]
    rfl
  | succ remaining ih =>
    have cleared : (loader.unsetBitmapBit bit).noted frame =
        (decide (frame ≠ bit) && loader.noted frame) := Bitmap.bit_clearBit loader.bitmap bit frame
    change ((loader.unsetBitmapBit bit).unsetBits (bit + 1) remaining).noted frame = _
    rw [ih, cleared, ← Bool.and_assoc]
    congr 1
    by_cases same : frame = bit
    · subst frame
      simp
    · have shifted : (bit + 1 ≤ frame ∧ frame < bit + 1 + remaining) ↔
          (bit ≤ frame ∧ frame < bit + (remaining + 1)) := by omega
      simp only [shifted, same, ne_eq, not_false_eq_true, decide_true, Bool.and_true]

theorem unsetBits_eq (loader : Loader) (bit remaining : Nat) :
    loader.unsetBits bit remaining =
      { loader with bitmap := (loader.unsetBits bit remaining).bitmap } := by
  induction remaining generalizing bit loader with
  | zero => rfl
  | succ remaining ih =>
    change (loader.unsetBitmapBit bit).unsetBits (bit + 1) remaining = _
    rw [ih]
    rfl

theorem unsetUsable_noted (loader : Loader) (map : List MemoryDescriptor) (frame : Nat) :
    (loader.unsetUsable map).noted frame =
      (!decide (UsableFrame map frame) && loader.noted frame) := by
  induction map generalizing loader with
  | nil =>
    have none : ¬ UsableFrame [] frame := by
      rintro ⟨descriptor, member, _rest⟩
      cases member
    rw [decide_eq_false none]
    rfl
  | cons descriptor rest ih =>
    unfold unsetUsable
    cases usable : descriptor.type.usable with
    | false =>
      have skip : UsableFrame (descriptor :: rest) frame ↔ UsableFrame rest frame := by
        rw [usableFrame_cons, usable]
        simp
      rw [if_pos rfl, ih]
      simp only [skip]
    | true =>
      have range : (word (descriptor.physicalStart + 4095) / 4096 ≤ frame ∧
          frame < word (descriptor.physicalStart + 4095) / 4096 +
            (descriptor.endAddress / 4096 -
              word (descriptor.physicalStart + 4095) / 4096)) ↔ descriptor.Covers frame := by
        unfold MemoryDescriptor.Covers
        omega
      have both : UsableFrame (descriptor :: rest) frame ↔
          descriptor.Covers frame ∨ UsableFrame rest frame := by
        rw [usableFrame_cons, usable]
        simp
      rw [if_neg (by decide)]
      change (unsetUsable (unsetBits _ _ _) rest).noted frame = _
      rw [ih, unsetBits_noted]
      simp only [range, both, Bool.decide_or, Bool.not_or]
      rw [← Bool.and_assoc, Bool.and_comm (!decide (UsableFrame rest frame))]

theorem unsetUsable_eq (loader : Loader) (map : List MemoryDescriptor) :
    loader.unsetUsable map = { loader with bitmap := (loader.unsetUsable map).bitmap } := by
  induction map generalizing loader with
  | nil => rfl
  | cons descriptor rest ih =>
    unfold unsetUsable
    split
    · exact ih loader
    · change unsetUsable (unsetBits _ _ _) rest = _
      rw [ih, unsetBits_eq]

variable {firmware : Firmware} {after before first loader second third : Loader}

theorem getMemoryMap_ok {call : Nat}
    {answer : List MemoryDescriptor × Loader}
    (returned : loader.getMemoryMap firmware call = .ok answer) :
    firmware.memoryMap call = .ok answer.1 ∧ ∃ buffer pages, answer.2 = loader.took buffer pages := by
  obtain ⟨buffer, allocated, rest⟩ := bind_eq_ok returned
  cases reported : firmware.memoryMap call with
  | error status =>
    rw [reported] at rest
    cases rest
  | ok map =>
    rw [reported] at rest
    cases rest
    exact ⟨rfl, buffer.1, _, allocatePages_ok allocated⟩

/-- The bitmap covers `size` bytes; a frame is free in it when the second memory map
has it as usable. -/
structure BitmapBuilt (firmware : Firmware) (before after : Loader) (bitmapFrame : Nat)
    (totals : MemoryTotals) (second : List MemoryDescriptor) : Prop where
  firstMap : ∃ first, firmware.memoryMap 0 = .ok first ∧ totals = memoryTotals first
  secondMap : firmware.memoryMap 1 = .ok second
  bits : ∀ frame, after.noted frame = (!decide (UsableFrame second frame) &&
    (decide (frame / 8 < totals.bitmapSizeBytes) || before.noted frame))
  held : ∀ offset < (totals.bitmapSizeBytes + 4095) / 4096, bitmapFrame + offset ∈ after.handedOut
  marked : after.marked = before.marked
  segmentFrames : after.segmentFrames = before.segmentFrames

theorem buildBitmap_ok {bitmapFrame : Nat}
    {totals : MemoryTotals}
    (built : loader.buildBitmap firmware = .ok ((bitmapFrame, totals), after)) :
    ∃ second, BitmapBuilt firmware loader after bitmapFrame totals second := by
  obtain ⟨first, firstMap, rest⟩ := bind_eq_ok built
  obtain ⟨bitmap, allocated, rest⟩ := bind_eq_ok rest
  obtain ⟨second, secondMap, rest⟩ := bind_eq_ok rest
  cases rest
  obtain ⟨reportedFirst, buffer, pages, isFirst⟩ := getMemoryMap_ok firstMap
  obtain ⟨reportedSecond, buffer', pages', isSecond⟩ := getMemoryMap_ok secondMap
  have isBitmap := allocatePages_ok allocated
  have fields := unsetUsable_eq second.2 second.1
  refine ⟨second.1, ?_⟩
  exact
    { firstMap := ⟨first.1, reportedFirst, rfl⟩
      secondMap := reportedSecond
      bits := by
        intro frame
        rw [unsetUsable_noted, isSecond]
        congr 1
        change Bitmap.bit _ frame = _
        by_cases inside : frame / 8 < (memoryTotals first.1).bitmapSizeBytes
        · rw [decide_eq_true inside, Bool.true_or]
          apply Bitmap.bit_of_full
          exact if_pos inside
        rw [decide_eq_false inside, Bool.false_or]
        unfold Bitmap.bit
        simp only [took, if_neg inside]
        rw [isBitmap, isFirst]
        rfl
      held := by
        intro offset inside
        rw [fields, isSecond]
        change bitmap.1 + offset ∈ framesOf ((buffer', pages') :: bitmap.2.allocated)
        rw [isBitmap]
        apply mem_flatMap.mpr
        refine ⟨(bitmap.1, _), mem_cons_of_mem _ mem_cons_self, ?_⟩
        exact mem_range'_1.mpr ⟨Nat.le_add_right _ _, Nat.add_lt_add_left inside _⟩
      marked := by
        rw [fields, isSecond]
        change bitmap.2.marked = _
        rw [isBitmap, isFirst]
        rfl
      segmentFrames := by
        rw [fields, isSecond]
        change bitmap.2.segmentFrames = _
        rw [isBitmap, isFirst]
        rfl }

/-! ### Setting bits -/

/-- Between the two states bits were set, and each was recorded. -/
def Marks (before after : Loader) : Prop :=
  ∃ marks, after.marked = marks ++ before.marked ∧
    ∀ frame, after.noted frame = (decide (frame ∈ marks) || before.noted frame)

theorem Marks.refl (loader : Loader) : Marks loader loader :=
  ⟨[], rfl, by simp⟩

theorem Marks.trans (left : Marks first second)
    (right : Marks second third) : Marks first third := by
  obtain ⟨marks, marked, bits⟩ := left
  obtain ⟨marks', marked', bits'⟩ := right
  refine ⟨marks' ++ marks, ?_, ?_⟩
  · rw [marked', marked, append_assoc]
  · intro frame
    rw [bits', bits, ← Bool.or_assoc]
    congr 1
    simp

theorem Extends.marks (grown : Extends before after) :
    Marks before after := by
  obtain ⟨_answers, marks, _allocated, marked, _inside, bits⟩ := grown.history
  exact ⟨marks, marked, bits⟩

theorem setBitmapBit_marks (loader : Loader) (frame : Nat) :
    Marks loader (loader.setBitmapBit frame) := by
  refine ⟨[frame], rfl, ?_⟩
  intro other
  simp only [mem_singleton]
  exact setBitmapBit_noted loader frame other

theorem setBits_noted (loader : Loader) (bit remaining frame : Nat) :
    (loader.setBits bit remaining).noted frame =
      (decide (bit ≤ frame ∧ frame < bit + remaining) || loader.noted frame) := by
  induction remaining generalizing bit loader with
  | zero =>
    have empty : ¬ (bit ≤ frame ∧ frame < bit + 0) := by omega
    rw [decide_eq_false empty]
    rfl
  | succ remaining ih =>
    have first : ((loader.setBitmapBit bit).countUsed).noted frame =
        (decide (frame = bit) || loader.noted frame) := setBitmapBit_noted loader bit frame
    change (((loader.setBitmapBit bit).countUsed).setBits (bit + 1) remaining).noted frame = _
    rw [ih, first, ← Bool.or_assoc]
    congr 1
    rw [← Bool.decide_or]
    apply decide_eq_decide.mpr
    omega

theorem setBits_marks (loader : Loader) (bit remaining : Nat) :
    Marks loader (loader.setBits bit remaining) := by
  induction remaining generalizing bit loader with
  | zero => exact Marks.refl loader
  | succ remaining ih =>
    have first : Marks loader (loader.setBitmapBit bit).countUsed :=
      setBitmapBit_marks loader bit
    exact first.trans (ih _ _)

def OnlyBits (before after : Loader) : Prop :=
  after =
    { before with
      bitmap := after.bitmap
      marked := after.marked
      memoryPhysicalUsedFrames := after.memoryPhysicalUsedFrames }

theorem OnlyBits.trans (left : OnlyBits first second)
    (right : OnlyBits second third) : OnlyBits first third := by
  unfold OnlyBits at left right ⊢
  rw [right, left]

theorem setBits_onlyBits (loader : Loader) (bit remaining : Nat) :
    OnlyBits loader (loader.setBits bit remaining) := by
  induction remaining generalizing bit loader with
  | zero => rfl
  | succ remaining ih =>
    have first : OnlyBits loader (loader.setBitmapBit bit).countUsed := rfl
    exact first.trans (ih _ _)

theorem reserveFrameZero_noted (loader : Loader) (frame : Nat) :
    loader.reserveFrameZero.noted frame = (decide (frame = 0) || loader.noted frame) := by
  unfold reserveFrameZero
  split
  · exact setBitmapBit_noted loader 0 frame
  rename_i isSet
  by_cases isZero : frame = 0
  · subst frame
    have noted : loader.noted 0 = true := by
      apply Bool.eq_true_of_not_eq_false
      intro clear
      exact isSet ((Bitmap.readBit_eq_zero_iff loader.bitmap 0).mpr clear)
    rw [noted, Bool.or_true]
  · rw [decide_eq_false isZero, Bool.false_or]

theorem reserveFrameZero_marks (loader : Loader) : Marks loader loader.reserveFrameZero := by
  unfold reserveFrameZero
  split
  · exact setBitmapBit_marks loader 0
  · exact Marks.refl loader

theorem reserveFrameZero_onlyBits (loader : Loader) :
    OnlyBits loader loader.reserveFrameZero := by
  unfold reserveFrameZero
  split
  · rfl
  · rfl

/-- The state before the kernel file is read. -/
structure BootFramesReserved (before after : Loader) (bitmapFrame : Nat) (totals : MemoryTotals) :
    Prop where
  allocated : after.allocated = (after.pml4, 1) :: (after.bootInfo, 1) :: before.allocated
  bitmapAddress : after.memoryBitmapAddress = bitmapFrame * 4096
  bitmapSize : after.memoryBitmapSize = totals.bitmapSizeBytes
  totalFrames : after.memoryPhysicalTotalFrames = totals.physicalMemoryFrameCount
  segmentFrames : after.segmentFrames = before.segmentFrames
  zeroed : ∀ index, after.ram after.pml4 index = PageTableEntry.zero
  marks : Marks before after
  bits : ∀ frame, after.noted frame = true ↔
    frame = after.pml4 ∨ frame = after.bootInfo ∨ frame = 0 ∨
      (bitmapFrame ≤ frame ∧ frame < bitmapFrame + (totals.bitmapSizeBytes + 4095) / 4096) ∨
      before.noted frame = true

theorem reserveBootFrames_ok {bitmapFrame : Nat}
    {totals : MemoryTotals}
    (reserved : loader.reserveBootFrames firmware bitmapFrame totals = .ok after) :
    BootFramesReserved loader after bitmapFrame totals := by
  obtain ⟨info, infoTaken, rest⟩ := bind_eq_ok reserved
  obtain ⟨root, rootTaken, rest⟩ := bind_eq_ok rest
  have isInfo := allocatePages_ok infoTaken
  have isRoot := allocatePages_ok rootTaken
  rw [isInfo] at isRoot
  cases rest
  rw [isRoot]
  generalize filledIs : ({ loader.took info.1 1 with
    bootInfo := info.1
    memoryBitmapAddress := bitmapFrame * 4096
    memoryBitmapSize := totals.bitmapSizeBytes
    memoryPhysicalTotalFrames := totals.physicalMemoryFrameCount
    memoryPhysicalUsedFrames := totals.physicalMemoryUsedFrameCount } : Loader) = filled
  generalize pages : (totals.bitmapSizeBytes + 4095) / 4096 = count
  generalize notedIs : ((filled.setBits bitmapFrame count).reserveFrameZero.setBitmapBit
    info.1).countUsed = infoNoted
  have onlyBits : OnlyBits filled infoNoted := by
    rw [← notedIs]
    exact ((setBits_onlyBits filled bitmapFrame count).trans
      (reserveFrameZero_onlyBits _)).trans rfl
  have marks : Marks filled infoNoted := by
    rw [← notedIs]
    exact ((setBits_marks filled bitmapFrame count).trans (reserveFrameZero_marks _)).trans
      (setBitmapBit_marks _ info.1)
  have bits : ∀ frame, infoNoted.noted frame = (decide (frame = info.1) ||
      (decide (frame = 0) || (decide (bitmapFrame ≤ frame ∧ frame < bitmapFrame + count) ||
        filled.noted frame))) := by
    intro frame
    rw [← notedIs, ← setBits_noted, ← reserveFrameZero_noted]
    exact setBitmapBit_noted _ info.1 frame
  have bootInfo : infoNoted.bootInfo = info.1 := by
    rw [congrArg Loader.bootInfo onlyBits, ← filledIs]
  have allocated : infoNoted.allocated = (info.1, 1) :: loader.allocated := by
    rw [congrArg Loader.allocated onlyBits, ← filledIs]
    rfl
  have fromLoader : Marks loader filled := by
    rw [← filledIs]
    exact ⟨[], rfl, by simp [took, noted]⟩
  have sameBits : ∀ frame, filled.noted frame = loader.noted frame := by
    intro frame
    rw [← filledIs]
    rfl
  have rootNoted : ∀ frame, ((infoNoted.took root.1 1).setBitmapBit root.1).noted frame =
      (decide (frame = root.1) || infoNoted.noted frame) := fun frame =>
    setBitmapBit_noted (infoNoted.took root.1 1) root.1 frame
  refine
    { allocated := ?_
      bitmapAddress := ?_
      bitmapSize := ?_
      totalFrames := ?_
      segmentFrames := ?_
      zeroed := ?_
      marks := ?_
      bits := ?_ }
  · change (root.1, 1) :: infoNoted.allocated = (root.1, 1) :: (infoNoted.bootInfo, 1) :: _
    rw [allocated, bootInfo]
  · change infoNoted.memoryBitmapAddress = _
    rw [congrArg Loader.memoryBitmapAddress onlyBits, ← filledIs]
  · change infoNoted.memoryBitmapSize = _
    rw [congrArg Loader.memoryBitmapSize onlyBits, ← filledIs]
  · change infoNoted.memoryPhysicalTotalFrames = _
    rw [congrArg Loader.memoryPhysicalTotalFrames onlyBits, ← filledIs]
  · change infoNoted.segmentFrames = _
    rw [congrArg Loader.segmentFrames onlyBits, ← filledIs]
    rfl
  · intro index
    change Function.update infoNoted.ram root.1 _ root.1 index = _
    rw [Function.update_self]
  · exact (fromLoader.trans marks).trans (setBitmapBit_marks (infoNoted.took root.1 1) root.1)
  · intro frame
    change ((infoNoted.took root.1 1).setBitmapBit root.1).noted frame = true ↔
      frame = root.1 ∨ frame = infoNoted.bootInfo ∨ _
    rw [rootNoted, bits, sameBits, bootInfo, pages]
    simp only [Bool.or_eq_true, decide_eq_true_eq]

/-! ### Mapping the kernel -/

/-- What the phases after the root table keep: the tables stay a tree of noted
frames and every frame of a segment is noted. -/
structure Proceeds (kernel : Vmm) (before after : Loader) : Prop where
  grown : Extends before after
  tabled : after.Fresh → Tabled kernel before → Tabled kernel after
  segments : (∀ frame ∈ before.segmentFrames, before.noted frame = true) →
    ∀ frame ∈ after.segmentFrames, after.noted frame = true

theorem Proceeds.refl (kernel : Vmm) (loader : Loader) : Proceeds kernel loader loader where
  grown := Extends.refl loader
  tabled := fun _fresh tabled => tabled
  segments := fun noted => noted

variable {kernel : Vmm}

theorem Proceeds.trans
    (left : Proceeds kernel first second) (right : Proceeds kernel second third) :
    Proceeds kernel first third where
  grown := left.grown.trans right.grown
  tabled := fun fresh tabled =>
    right.tabled fresh (left.tabled (fresh.before right.grown) tabled)
  segments := fun noted => right.segments (left.segments noted)

theorem Proceeds.of_same (grown : Extends before after)
    (memory : after.ram = before.ram) (segments : after.segmentFrames = before.segmentFrames) :
    Proceeds kernel before after where
  grown := grown
  tabled := by
    intro _fresh tabled
    apply tabled.congr grown
    unfold handOver
    rw [memory, grown.root]
  segments := by
    intro noted frame member
    rw [segments] at member
    exact grown.noted (noted frame member)

section Phases

variable {kernel : Vmm} {firmware : Firmware} {before after : Loader}

theorem took_proceeds (loader : Loader) (frame pages : Nat) :
    Proceeds kernel loader (loader.took frame pages) :=
  Proceeds.of_same (took_extends loader frame pages) rfl rfl

theorem getMemoryMap_proceeds {call : Nat} {answer : List MemoryDescriptor × Loader}
    (returned : before.getMemoryMap firmware call = .ok answer) :
    Proceeds kernel before answer.2 := by
  obtain ⟨_reported, buffer, pages, isTaken⟩ := getMemoryMap_ok returned
  rw [isTaken]
  exact took_proceeds before buffer pages

theorem mapVaddrToPaddr_proceeds {vaddr paddr flags : Nat}
    (notHuge : Vmm.flagBit flags 4 = false)
    (mapped : before.mapVaddrToPaddr firmware vaddr paddr flags = .ok after) :
    Proceeds kernel before after := by
  have both := mapVaddrToPaddr_extends notHuge mapped
  exact
    { grown := both.1
      tabled := fun fresh tabled => (mapVaddrToPaddr_maps tabled notHuge mapped fresh).tabled
      segments := by
        intro noted frame member
        rw [both.2.segmentFrames] at member
        exact both.1.noted (noted frame member) }

theorem loadPage_proceeds {file : Nat → UInt8} {header : ProgramHeader}
    {segmentVaddr consumed : Nat}
    (loaded : loadPage firmware file header segmentVaddr consumed before = .ok after) :
    Proceeds kernel before after where
  grown := loadPage_extends loaded
  tabled := fun fresh tabled => (loadPage_maps tabled loaded fresh).1
  segments := by
    intro noted frame member
    have grown := loadPage_extends loaded
    obtain ⟨taken, mapped, isMapped, isNoted⟩ := loadPage_ok loaded
    have same := (mapVaddrToPaddr_extends header.pageFlags_bits.1 isMapped).2.segmentFrames
    have filled : ((before.took taken 1).fillFrame file header taken consumed).segmentFrames =
        before.segmentFrames := by
      unfold fillFrame
      split
      · rfl
      · rfl
    rw [isNoted] at member
    rcases mem_cons.mp member with isTaken | earlier
    · rw [isTaken, isNoted]
      change (mapped.setBitmapBit taken).noted taken = true
      rw [setBitmapBit_noted, decide_eq_true rfl, Bool.true_or]
    · change frame ∈ mapped.segmentFrames at earlier
      rw [same, filled] at earlier
      exact grown.noted (noted frame earlier)

theorem loadSegment_proceeds {file : Nat → UInt8} {header : ProgramHeader}
    {rounds segmentVaddr consumed : Nat}
    (loaded : loadSegment firmware file header rounds segmentVaddr consumed before = .ok after) :
    Proceeds kernel before after := by
  induction rounds generalizing segmentVaddr consumed before with
  | zero => cases loaded
  | succ rounds ih =>
    unfold loadSegment at loaded
    split at loaded
    · obtain ⟨middle, page, rest⟩ := bind_eq_ok loaded
      exact (loadPage_proceeds page).trans (ih rest)
    · cases loaded
      exact Proceeds.refl kernel _

theorem loadSegments_proceeds {file : Nat → UInt8} {headers : List ProgramHeader}
    (loaded : loadSegments firmware file headers before = .ok after) :
    Proceeds kernel before after := by
  induction headers generalizing before with
  | nil =>
    cases loaded
    exact Proceeds.refl kernel _
  | cons header rest ih =>
    unfold loadSegments at loaded
    split at loaded
    · exact ih loaded
    · obtain ⟨middle, segment, others⟩ := bind_eq_ok loaded
      exact (loadSegment_proceeds segment).trans (ih others)

theorem kernelFlags_small : Vmm.flagBit (ptGlobal ||| ptWriteable) 4 = false := by decide

variable {address base pages : Nat}

theorem mapRange_proceeds
    (mapped : mapRange firmware base pages address before = .ok after) :
    Proceeds kernel before after := by
  induction pages generalizing address before with
  | zero =>
    cases mapped
    exact Proceeds.refl kernel _
  | succ pages ih =>
    obtain ⟨middle, first, rest⟩ := bind_eq_ok mapped
    exact (mapVaddrToPaddr_proceeds kernelFlags_small first).trans (ih rest)

theorem mapRange_untouched
    (mapped : mapRange firmware base pages address before = .ok after) :
    Untouched before after := by
  induction pages generalizing address before with
  | zero =>
    cases mapped
    exact Untouched.refl _
  | succ pages ih =>
    obtain ⟨middle, first, rest⟩ := bind_eq_ok mapped
    exact (mapVaddrToPaddr_extends kernelFlags_small first).2.trans (ih rest)

theorem mapDirect_proceeds {map : List MemoryDescriptor}
    (mapped : mapDirect firmware map before = .ok after) : Proceeds kernel before after := by
  induction map generalizing before with
  | nil =>
    cases mapped
    exact Proceeds.refl kernel _
  | cons descriptor rest ih =>
    unfold mapDirect at mapped
    split at mapped
    · exact ih mapped
    · obtain ⟨middle, range, others⟩ := bind_eq_ok mapped
      exact (mapRange_proceeds range).trans (ih others)

theorem readKernel_proceeds (read : before.readKernel firmware = .ok after) :
    Proceeds kernel before after := by
  obtain ⟨_, _gop, rest⟩ := bind_eq_ok read
  obtain ⟨_, _image, rest⟩ := bind_eq_ok rest
  obtain ⟨_, _fileSystem, rest⟩ := bind_eq_ok rest
  obtain ⟨_, _volume, rest⟩ := bind_eq_ok rest
  obtain ⟨_, _kernel, rest⟩ := bind_eq_ok rest
  obtain ⟨_, _pool, rest⟩ := bind_eq_ok rest
  obtain ⟨_, _info, rest⟩ := bind_eq_ok rest
  obtain ⟨buffer, allocated, rest⟩ := bind_eq_ok rest
  obtain ⟨_, _read, rest⟩ := bind_eq_ok rest
  split at rest
  · cases rest
  · cases rest
    rw [allocatePages_ok allocated]
    exact took_proceeds before _ _

/-- Pages outside a range keep their leaves. -/
theorem mapRange_leaf {vAddr : Nat} (tabled : Tabled kernel before)
    (mapped : mapRange firmware base pages address before = .ok after) (fresh : after.Fresh)
    (outside : ∀ offset < pages,
      Vmm.page vAddr ≠ Vmm.page (word (address + 4096 * offset + base))) :
    (after.handOver kernel).leaf vAddr = (before.handOver kernel).leaf vAddr := by
  induction pages generalizing address before with
  | zero =>
    cases mapped
    rfl
  | succ pages ih =>
    obtain ⟨middle, first, rest⟩ := bind_eq_ok mapped
    have later : Proceeds kernel middle after := mapRange_proceeds rest
    have page := mapVaddrToPaddr_maps tabled kernelFlags_small first (fresh.before later.grown)
    obtain ⟨old, leaves⟩ := page.leaves
    have here : Vmm.page vAddr ≠ Vmm.page (word (address + base)) :=
      outside 0 (Nat.succ_pos pages)
    rw [ih page.tabled rest, leaves, if_neg here]
    intro offset inside
    have next := outside (offset + 1) (Nat.succ_lt_succ inside)
    have sameAddress : address + 0x1000 + 4096 * offset = address + 4096 * (offset + 1) := by
      omega
    rw [sameAddress]
    exact next

/-- One round of the stack loop. -/
theorem mapStack_round (mapped : mapStack firmware (pages + 1) before = .ok after) :
    ∃ frame middle, mapStack firmware pages middle = .ok after ∧
      Extends (before.took frame 1) middle ∧ Proceeds kernel before middle ∧
      middle.stackFrames.head? = some frame ∧
      (Tabled kernel before → middle.Fresh → ∃ entry,
        (middle.handOver kernel).leaf (kernelStackBase - 1) = some entry ∧
          entry.physicalAddress = frame) := by
  obtain ⟨answer, allocated, rest⟩ := bind_eq_ok mapped
  obtain ⟨page, isMapped, rest⟩ := bind_eq_ok rest
  rw [allocatePages_ok allocated] at isMapped
  have pushed : Extends page { page with stackFrames := answer.1 :: page.stackFrames } :=
    { history := ⟨[], [], rfl, rfl, by simp, by simp [Loader.noted]⟩
      root := rfl
      bootInfo := rfl
      bitmapAddress := rfl
      bitmapSize := rfl
      totalFrames := rfl }
  have taken : Proceeds kernel before (before.took answer.1 1) := took_proceeds before answer.1 1
  have stored : Proceeds kernel (before.took answer.1 1) page :=
    mapVaddrToPaddr_proceeds kernelFlags_small isMapped
  refine ⟨answer.1, _, rest, stored.grown.trans pushed,
    (taken.trans stored).trans (Proceeds.of_same pushed rfl rfl), rfl, ?_⟩
  intro tabled fresh
  have freshPage : page.Fresh := fresh.before pushed
  have freshTaken := freshPage.before stored.grown
  have leaves := (mapVaddrToPaddr_maps (taken.tabled freshTaken tabled) kernelFlags_small
    isMapped freshPage).leaves
  obtain ⟨old, leaves⟩ := leaves
  refine ⟨_, (leaves (kernelStackBase - 1)).trans (if_pos rfl), ?_⟩
  change physicalField ((answer.1 * 4096) >>> 12) = answer.1
  rw [Nat.shiftRight_eq_div_pow, Nat.mul_div_cancel answer.1 (by decide)]
  exact Nat.mod_eq_of_lt freshTaken.new.2

theorem mapStack_proceeds (mapped : mapStack firmware pages before = .ok after) :
    Proceeds kernel before after := by
  induction pages generalizing before with
  | zero =>
    cases mapped
    exact Proceeds.refl kernel _
  | succ pages ih =>
    obtain ⟨_frame, _middle, rest, _taken, first, _others⟩ := mapStack_round mapped
    exact first.trans (ih rest)

/-- The stack page is left mapped to the frame taken last. -/
theorem mapStack_stack (tabled : Tabled kernel before)
    (mapped : mapStack firmware (pages + 1) before = .ok after) (fresh : after.Fresh) :
    ∃ frame previous entry, after.stackFrames.head? = some frame ∧ Extends before previous ∧
      Extends (previous.took frame 1) after ∧
      (after.handOver kernel).leaf (kernelStackBase - 1) = some entry ∧
      entry.physicalAddress = frame := by
  induction pages generalizing before with
  | zero =>
    obtain ⟨frame, middle, rest, taken, _first, isHead, leaf⟩ := mapStack_round mapped
    cases rest
    obtain ⟨entry, isLeaf, isFrame⟩ := leaf tabled fresh
    exact ⟨frame, before, entry, isHead, Extends.refl before, taken, isLeaf, isFrame⟩
  | succ pages ih =>
    obtain ⟨_frame, middle, rest, _taken, first, _isHead, _leaf⟩ := mapStack_round mapped
    have later : Proceeds kernel middle after := mapStack_proceeds rest
    obtain ⟨frame, previous, entry, isHead, before, taken, isLeaf, isFrame⟩ :=
      ih (first.tabled (fresh.before later.grown) tabled) rest
    exact ⟨frame, previous, entry, isHead, first.grown.trans before, taken, isLeaf, isFrame⟩

end Phases

/-! ### The whole loader -/

theorem Extends.noted_taken (grown : Extends before after)
    (fresh : after.Fresh) {frame : Nat} (taken : frame ∈ before.handedOut) :
    after.noted frame = before.noted frame := by
  obtain ⟨answers, marks, allocated, _marked, inside, bits⟩ := grown.history
  have all := fresh.distinct
  unfold Loader.handedOut at all
  rw [allocated, framesOf_append] at all
  have unmarked : frame ∉ marks := by
    intro member
    exact (nodup_append.mp all).2.2 frame (inside frame member) frame taken rfl
  rw [bits, decide_eq_false unmarked, Bool.false_or]

theorem Extends.noted_unused (grown : Extends before after)
    {frame : Nat} (unused : frame ∉ after.handedOut) :
    after.noted frame = before.noted frame := by
  obtain ⟨answers, marks, allocated, _marked, inside, bits⟩ := grown.history
  have unmarked : frame ∉ marks := by
    intro member
    apply unused
    unfold Loader.handedOut
    rw [allocated, framesOf_append]
    exact mem_append_left _ (inside frame member)
  rw [bits, decide_eq_false unmarked, Bool.false_or]

/-- The states the loader goes through on its way to the jump. -/
structure Boot (kernel : Vmm) (firmware : Firmware) (start final : Loader) where
  bitmapFrame : Nat
  totals : MemoryTotals
  second : List MemoryDescriptor
  built : Loader
  reserved : Loader
  direct : Loader
  stacked : Loader
  mapped : Loader
  isBuilt : BitmapBuilt firmware start built bitmapFrame totals second
  isReserved : BootFramesReserved built reserved bitmapFrame totals
  isDirect : Proceeds kernel reserved direct
  isStacked : mapStack firmware kernelStackPageCount direct = .ok stacked
  isMapped : mapGdt firmware stacked = .ok mapped
  isFinal : Proceeds kernel mapped final
  sameMemory : final.handOver kernel = mapped.handOver kernel
  sameStack : final.stackFrames = mapped.stackFrames

theorem efiMain_ok (kernel : Vmm) {start final : Loader}
    (ran : start.efiMain firmware = .ok final) : Nonempty (Boot kernel firmware start final) := by
  obtain ⟨built, isBuilt, rest⟩ := bind_eq_ok ran
  obtain ⟨reserved, isReserved, rest⟩ := bind_eq_ok rest
  obtain ⟨read, isRead, rest⟩ := bind_eq_ok rest
  obtain ⟨mapped, isMapped, rest⟩ := bind_eq_ok rest
  obtain ⟨last, isLast, rest⟩ := bind_eq_ok rest
  obtain ⟨_, _exited, rest⟩ := bind_eq_ok rest
  cases rest
  obtain ⟨loaded, isLoaded, isMapped⟩ := bind_eq_ok isMapped
  obtain ⟨third, isThird, isMapped⟩ := bind_eq_ok isMapped
  obtain ⟨direct, isDirect, isMapped⟩ := bind_eq_ok isMapped
  obtain ⟨stacked, isStacked, isMapped⟩ := bind_eq_ok isMapped
  obtain ⟨second, bitmap⟩ := buildBitmap_ok isBuilt
  obtain ⟨_reported, buffer, pages, isTaken⟩ := getMemoryMap_ok isLast
  exact ⟨
    { bitmapFrame := built.1.1
      totals := built.1.2
      second := second
      built := built.2
      reserved := reserved
      direct := direct
      stacked := stacked
      mapped := mapped
      isBuilt := bitmap
      isReserved := reserveBootFrames_ok isReserved
      isDirect := (((readKernel_proceeds isRead).trans (loadSegments_proceeds isLoaded)).trans
        (getMemoryMap_proceeds isThird)).trans (mapDirect_proceeds isDirect)
      isStacked := isStacked
      isMapped := isMapped
      isFinal := getMemoryMap_proceeds isLast
      sameMemory := by
        rw [isTaken]
        rfl
      sameStack := by
        rw [isTaken]
        rfl }⟩

namespace Boot

variable {kernel : Vmm} {firmware : Firmware} {start final : Loader}

section

variable (boot : Boot kernel firmware start final)

include boot

theorem proceeds :
    Proceeds kernel boot.reserved final :=
  ((boot.isDirect.trans (mapStack_proceeds boot.isStacked)).trans
    (mapRange_proceeds boot.isMapped)).trans boot.isFinal

theorem built_handedOut {frame : Nat}
    (member : frame ∈ boot.built.handedOut) : frame ∈ boot.reserved.handedOut := by
  unfold handedOut
  rw [boot.isReserved.allocated]
  exact mem_cons_of_mem _ (mem_cons_of_mem _ member)

theorem root_handedOut :
    boot.reserved.pml4 ∈ boot.reserved.handedOut := by
  unfold handedOut
  rw [boot.isReserved.allocated]
  exact mem_cons_self

theorem info_handedOut :
    boot.reserved.bootInfo ∈ boot.reserved.handedOut := by
  unfold handedOut
  rw [boot.isReserved.allocated]
  exact mem_cons_of_mem _ mem_cons_self

theorem tabled : Tabled kernel boot.reserved :=
  (tabled_zeroed boot.root_handedOut boot.isReserved.zeroed).1

/-- A frame taken after the boot frames were reserved is noted in the bitmap then
only if it is frame 0 or was never cleared. -/
theorem noted_new {frame : Nat}
    (unused : frame ∉ boot.reserved.handedOut) :
    boot.reserved.noted frame = true ↔ frame = 0 ∨ (¬ UsableFrame boot.second frame ∧
      (frame / 8 < boot.totals.bitmapSizeBytes ∨ start.noted frame = true)) := by
  have notRoot : frame ≠ boot.reserved.pml4 := fun same => unused (same ▸ boot.root_handedOut)
  have notInfo : frame ≠ boot.reserved.bootInfo := fun same => unused (same ▸ boot.info_handedOut)
  have notBitmap : ¬ (boot.bitmapFrame ≤ frame ∧
      frame < boot.bitmapFrame + (boot.totals.bitmapSizeBytes + 4095) / 4096) := by
    intro inside
    apply unused
    apply boot.built_handedOut
    have held := boot.isBuilt.held (frame - boot.bitmapFrame) (by omega)
    rw [Nat.add_sub_cancel' inside.1] at held
    exact held
  rw [boot.isReserved.bits, boot.isBuilt.bits]
  simp only [notRoot, notInfo, notBitmap, false_or, Bool.and_eq_true, Bool.not_eq_true',
    decide_eq_false_iff_not, Bool.or_eq_true, decide_eq_true_eq]

end

end Boot

/-- Every frame the kernel goes on using is marked used. -/
structure KernelFramesNoted (kernel : Vmm) (loader : Loader) : Prop where
  bitmap : ∀ offset < (loader.memoryBitmapSize + 4095) / 4096,
    loader.noted (loader.memoryBitmapAddress / 4096 + offset) = true
  frameZero : loader.noted 0 = true
  bootInfo : loader.noted loader.bootInfo = true
  tables : ∀ path table, path.length ≤ 3 →
    (loader.handOver kernel).tableAt path = some table → loader.noted table = true
  segments : ∀ frame ∈ loader.segmentFrames, loader.noted frame = true
  stack : ∀ entry, (loader.handOver kernel).leaf (kernelStackBase - 1) = some entry →
    loader.noted entry.physicalAddress = true

theorem mapGdt_stack
    (tabled : Tabled kernel before) (mapped : mapGdt firmware before = .ok after)
    (fresh : after.Fresh) (low : firmware.gdt64Ptr + 0x1000 ≤ 2 ^ 47) :
    (after.handOver kernel).leaf (kernelStackBase - 1) =
      (before.handOver kernel).leaf (kernelStackBase - 1) := by
  apply mapRange_leaf tabled mapped fresh
  intro offset inside
  rw [word_of_lt (by omega)] at inside
  rw [word_of_lt (by omega)]
  have stackPage : Vmm.page (kernelStackBase - 1) = 0xFFFF7FFFF := by decide
  rw [stackPage]
  unfold Vmm.page
  omega

def coldStart : Loader :=
  { bitmap := fun _ => 0
    ram := fun _ _ => PageTableEntry.zero
    bytes := fun _ => 0
    pml4 := 0
    memoryBitmapAddress := 0
    memoryBitmapSize := 0
    memoryPhysicalTotalFrames := 0
    memoryPhysicalUsedFrames := 0
    bootInfo := 0
    allocated := []
    marked := []
    segmentFrames := []
    stackFrames := [] }

/-- Firmware that reports one memory map, hands out frame after frame and has a
small kernel image. -/
def bootFirmware (map : List MemoryDescriptor) : Firmware :=
  { allocatePages := fun call => .ok (call + 1)
    mapSize := fun _ => 96
    descriptorSize := 48
    memoryMap := fun _ => .ok map
    status := fun _ => 0
    fileSize := 123
    file := oneSegment 0x400000 0x1800
    gdt64 := 0x2000
    gdt64Ptr := 0x2020 }

def highMemory : List MemoryDescriptor :=
  [{ type := .conventionalMemory, physicalStart := 0x28000, numberOfPages := 32 }]

def splitMemory : List MemoryDescriptor :=
  [{ type := .conventionalMemory, physicalStart := 0, numberOfPages := 32 },
    { type := .conventionalMemory, physicalStart := 0x100000, numberOfPages := 16 }]

def bootFrames : List Nat := ((List.range 28).map (fun call => call + 1)).reverse

theorem fresh_of_bootFrames (all : loader.handedOut = bootFrames) :
    loader.Fresh :=
  Fresh.of_handedOut all (by decide) (by decide)

/-- All frames the kernel keeps are marked used, but the frame of the stack page: the
loader leaves its bit as it is after the second memory map. -/
theorem boot_frames_noted_iff (kernel : Vmm) (firmware : Firmware) (start final : Loader)
    (first second : List MemoryDescriptor) (reportedFirst : firmware.memoryMap 0 = .ok first)
    (reportedSecond : firmware.memoryMap 1 = .ok second)
    (gdtLow : firmware.gdt64Ptr + 0x1000 ≤ 2 ^ 47) (noSegments : start.segmentFrames = [])
    (ran : start.efiMain firmware = .ok final) (fresh : final.Fresh) :
    KernelFramesNoted kernel final ↔
      ∀ frame, final.stackFrames.head? = some frame → frame = 0 ∨
        (¬ UsableFrame second frame ∧
          (frame / 8 < (memoryTotals first).bitmapSizeBytes ∨ start.noted frame = true)) := by
  obtain ⟨boot⟩ := efiMain_ok kernel ran
  have whole := boot.proceeds
  have toFinal : Proceeds kernel boot.stacked final :=
    (mapRange_proceeds boot.isMapped).trans boot.isFinal
  have freshMapped := fresh.before boot.isFinal.grown
  have freshStacked := fresh.before toFinal.grown
  have toStacked : Proceeds kernel boot.direct boot.stacked := mapStack_proceeds boot.isStacked
  have tabledDirect := boot.isDirect.tabled (freshStacked.before toStacked.grown) boot.tabled
  obtain ⟨frame, previous, entry, isHead, before, taken, isLeaf, isFrame⟩ :=
    mapStack_stack tabledDirect boot.isStacked freshStacked
  have stackLeaf : (final.handOver kernel).leaf (kernelStackBase - 1) = some entry := by
    rw [boot.sameMemory, mapGdt_stack (toStacked.tabled freshStacked tabledDirect) boot.isMapped
      freshMapped gdtLow]
    exact isLeaf
  have stackHead : final.stackFrames.head? = some frame := by
    rw [boot.sameStack, (mapRange_untouched boot.isMapped).stackFrames]
    exact isHead
  have totals : boot.totals = memoryTotals first := by
    obtain ⟨map, reported, isTotals⟩ := boot.isBuilt.firstMap
    rw [reportedFirst] at reported
    cases reported
    exact isTotals
  have maps : boot.second = second := by
    have reported := boot.isBuilt.secondMap
    rw [reportedSecond] at reported
    cases reported
    rfl
  -- the bit of the stack frame is the one it had when the boot frames were reserved
  have grown : Extends (previous.took frame 1) final := taken.trans toFinal.grown
  have unused := (fresh.before grown).new.1
  have earlier := boot.isDirect.grown.trans before
  have stackBit : final.noted frame = true ↔ frame = 0 ∨ (¬ UsableFrame second frame ∧
      (frame / 8 < (memoryTotals first).bitmapSizeBytes ∨ start.noted frame = true)) := by
    rw [grown.noted_taken fresh mem_cons_self]
    change previous.noted frame = true ↔ _
    rw [earlier.noted_unused unused, ← maps, ← totals]
    exact boot.noted_new (fun member => unused (earlier.handedOut member))
  constructor
  · intro all other isOther
    rw [stackHead] at isOther
    cases isOther
    have noted := all.stack entry stackLeaf
    rw [isFrame] at noted
    exact stackBit.mp noted
  · intro spared
    have bits := boot.isReserved.bits
    have tabledFinal := whole.tabled fresh boot.tabled
    refine
      { bitmap := ?_
        frameZero := ?_
        bootInfo := ?_
        tables := ?_
        segments := ?_
        stack := ?_ }
    · intro offset inside
      apply whole.grown.noted
      rw [whole.grown.bitmapSize, boot.isReserved.bitmapSize] at inside
      rw [whole.grown.bitmapAddress, boot.isReserved.bitmapAddress,
        Nat.mul_div_cancel _ (by decide)]
      exact (bits _).mpr (Or.inr (Or.inr (Or.inr (Or.inl
        ⟨Nat.le_add_right _ _, Nat.add_lt_add_left inside _⟩))))
    · exact whole.grown.noted ((bits 0).mpr (Or.inr (Or.inr (Or.inl rfl))))
    · rw [whole.grown.bootInfo]
      exact whole.grown.noted ((bits _).mpr (Or.inr (Or.inl rfl)))
    · intro path table short here
      cases path with
      | nil =>
        cases here
        change final.noted final.pml4 = true
        rw [whole.grown.root]
        exact whole.grown.noted ((bits _).mpr (Or.inl rfl))
      | cons index parent =>
        exact (tabledFinal.held _ table short here).2 (cons_ne_nil _ _)
    · apply whole.segments
      intro other member
      rw [boot.isReserved.segmentFrames, boot.isBuilt.segmentFrames, noSegments] at member
      cases member
    · intro other isOther
      rw [stackLeaf] at isOther
      cases isOther
      rw [isFrame]
      exact stackBit.mpr (spared frame stackHead)

theorem boot_frames_noted_iff_highMemory :
    ∃ final, coldStart.efiMain (bootFirmware highMemory) = .ok final ∧ final.Fresh ∧
      KernelFramesNoted Vmm.emptyTables final := by
  obtain ⟨final, ran, handed, head⟩ : ∃ final,
      coldStart.efiMain (bootFirmware highMemory) = .ok final ∧
        final.handedOut = bootFrames ∧ final.stackFrames.head? = some 26 :=
    exists_of_checked _ (by decide +kernel)
  have fresh := fresh_of_bootFrames handed
  refine ⟨final, ran, fresh, ?_⟩
  apply (boot_frames_noted_iff Vmm.emptyTables (bootFirmware highMemory) coldStart final highMemory
    highMemory rfl rfl (by decide) rfl ran fresh).mpr
  intro frame isHead
  rw [head] at isHead
  cases isHead
  exact Or.inr ⟨by decide, Or.inl (by decide)⟩

/-- On an ordinary machine the frame of the kernel stack is free for the kernel's
allocator. -/
theorem boot_stack_frame_free :
    ∃ final, coldStart.efiMain (bootFirmware splitMemory) = .ok final ∧ final.Fresh ∧
      ¬ KernelFramesNoted Vmm.emptyTables final := by
  obtain ⟨final, ran, handed, leaf, clear⟩ : ∃ final,
      coldStart.efiMain (bootFirmware splitMemory) = .ok final ∧
        final.handedOut = bootFrames ∧
        ((final.handOver Vmm.emptyTables).leaf (kernelStackBase - 1)).map
          PageTableEntry.physicalAddress = some 26 ∧ final.noted 26 = false :=
    exists_of_checked _ (by decide +kernel)
  refine ⟨final, ran, fresh_of_bootFrames handed, ?_⟩
  intro all
  obtain ⟨entry, isLeaf, isFrame⟩ := Option.map_eq_some_iff.mp leaf
  have noted := all.stack entry isLeaf
  rw [isFrame, clear] at noted
  cases noted

end Loader

end Fesos
