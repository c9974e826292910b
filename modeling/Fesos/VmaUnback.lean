/-
Giving the frames of a region back.

The loop of vma_free_memory_from_tree asks the page tables for the frame of every
page of the region and frees it, whether the page is present or not.  So it frees
as many frames as the region has pages, and it is right exactly when every page
was touched: the address of a page that was never mapped is 0, and frame 0 is
freed in its place.
-/

import Fesos.VmaRuns
import Fesos.VmmFrameZero

set_option autoImplicit false

namespace Fesos

open BinaryTree Library
open List hiding nil

namespace Vmm

def leafFrames (vmm : Vmm) (start pages : Nat) : List Nat :=
  (List.range pages).filterMap (fun offset =>
    (vmm.leaf (start + 4096 * offset)).map PageTableEntry.physicalAddress)

theorem leafFrames_mapped {vmm : Vmm} {start : Nat} {entry : PageTableEntry} (pages : Nat)
    (mapped : vmm.leaf start = some entry) :
    vmm.leafFrames start (pages + 1) =
      entry.physicalAddress :: vmm.leafFrames (start + 4096) pages := by
  unfold leafFrames
  rw [range_succ_eq_map, filterMap_cons, filterMap_map, Nat.mul_zero, Nat.add_zero,
    mapped]
  have shifted : (fun offset => (vmm.leaf (start + 4096 * offset)).map
      PageTableEntry.physicalAddress) ∘ Nat.succ = fun offset =>
        (vmm.leaf (start + 4096 + 4096 * offset)).map PageTableEntry.physicalAddress := by
    funext offset
    have next : start + 4096 * offset.succ = start + 4096 + 4096 * offset := by
      rw [Nat.succ_eq_add_one]
      omega
    rw [Function.comp_apply, next]
  rw [shifted]
  rfl

theorem leafFrames_full {vmm : Vmm} {start pages : Nat}
    (full : (vmm.leafFrames start pages).length = pages) :
    ∀ offset < pages, (vmm.leaf (start + 4096 * offset)).isSome = true := by
  unfold leafFrames at full
  rw [length_filterMap_eq_countP] at full
  have counted := countP_eq_length.mp (full.trans length_range.symm)
  intro offset inRange
  have present := counted offset (mem_range.mpr inRange)
  rw [Option.isSome_map] at present
  exact present

theorem leaf_release (vmm : Vmm) (frame vAddr : Nat) :
    ({ vmm with pmm := vmm.pmm.unsetBitmapBit frame } : Vmm).leaf vAddr = vmm.leaf vAddr :=
  slot_congr rfl (fun _ _ => rfl) _

theorem leafFrames_release (vmm : Vmm) (frame start pages : Nat) :
    ({ vmm with pmm := vmm.pmm.unsetBitmapBit frame } : Vmm).leafFrames start pages =
      vmm.leafFrames start pages := by
  unfold leafFrames
  simp only [leaf_release]

end Vmm

theorem PmmOf.pmmFreeFrames_one_iff {pmm after : Pmm} {frame : Nat} (small : frame < 2 ^ 52) :
    pmm.pmmFreeFrames (frame * 4096) 1 = .ok after ↔
      (frame < pmm.bitmapSizeFrames ∧ pmm.used frame = true) ∧
        after = pmm.unsetBitmapBit frame := by
  have frameIs : frame * 4096 / 4096 = frame := by omega
  have final : word (frame + 1) = frame + 1 := word_of_lt (by omega)
  unfold pmmFreeFrames
  rw [if_neg (by decide)]
  dsimp only
  rw [frameIs, final]
  by_cases inRange : frame < pmm.bitmapSizeFrames
  · rw [if_neg (by omega), Nat.add_sub_cancel_left, release]
    cases used : pmm.used frame with
    | true =>
      have set : ¬ pmm.getBitmapBit frame = 0 := by
        rw [getBitmapBit_eq_zero_iff, used]
        decide
      rw [if_neg set]
      change Except.ok (pmm.unsetBitmapBit frame) = .ok after ↔ _
      constructor
      · intro same
        exact ⟨⟨inRange, rfl⟩, (Except.ok.inj same).symm⟩
      · intro cleared
        rw [cleared.2]
    | false =>
      rw [if_pos ((getBitmapBit_eq_zero_iff pmm frame).mpr used)]
      constructor
      · intro same
        cases same
      · intro cleared
        cases cleared.1.2
  · rw [if_pos (by omega)]
    constructor
    · intro same
      cases same
    · intro cleared
      exact absurd cleared.1.1 inRange

namespace Vmm

structure Owns (vmm : Vmm) (frames : List Nat) : Prop where
  distinct : frames.Nodup
  used : ∀ frame ∈ frames, frame < vmm.pmm.bitmapSizeFrames ∧ vmm.pmm.used frame = true

theorem Owns.cons_iff {vmm : Vmm} {frame : Nat} {frames : List Nat} :
    vmm.Owns (frame :: frames) ↔
      (frame < vmm.pmm.bitmapSizeFrames ∧ vmm.pmm.used frame = true) ∧
        ({ vmm with pmm := vmm.pmm.unsetBitmapBit frame } : Vmm).Owns frames := by
  constructor
  · intro owns
    have distinct := nodup_cons.mp owns.distinct
    refine ⟨owns.used frame mem_cons_self, distinct.2, ?_⟩
    intro other member
    have held := owns.used other (mem_cons_of_mem _ member)
    refine ⟨held.1, ?_⟩
    change (vmm.pmm.unsetBitmapBit frame).used other = true
    rw [PmmOf.unsetBitmapBit_used, held.2, Bool.and_true, decide_eq_true_iff]
    intro same
    rw [same] at member
    exact distinct.1 member
  · intro owns
    have rest : ∀ other ∈ frames, other ≠ frame ∧ other < vmm.pmm.bitmapSizeFrames ∧
        vmm.pmm.used other = true := by
      intro other member
      have held := owns.2.used other member
      have kept : (vmm.pmm.unsetBitmapBit frame).used other = true := held.2
      rw [PmmOf.unsetBitmapBit_used, Bool.and_eq_true_iff, decide_eq_true_iff] at kept
      exact ⟨kept.1, held.1, kept.2⟩
    constructor
    · apply nodup_cons.mpr
      exact ⟨fun member => (rest frame member).1 rfl, owns.2.distinct⟩
    · intro other member
      cases mem_cons.mp member with
      | inl same =>
        rw [same]
        exact owns.1
      | inr later => exact (rest other later).2

def freed (vmm : Vmm) (frames : List Nat) : Vmm :=
  { vmm with pmm := frames.foldl PmmOf.unsetBitmapBit vmm.pmm }

theorem freed_entry (vmm : Vmm) (frames : List Nat) (table : Nat) (index : Fin 512) :
    (vmm.freed frames).entry table index = vmm.entry table index := by
  unfold freed entry
  induction frames generalizing vmm with
  | nil => rfl
  | cons frame rest ih => exact ih { vmm with pmm := vmm.pmm.unsetBitmapBit frame }

theorem freed_leaf (vmm : Vmm) (frames : List Nat) (vAddr : Nat) :
    (vmm.freed frames).leaf vAddr = vmm.leaf vAddr :=
  slot_congr (show (vmm.freed frames).pml4 = vmm.pml4 from rfl) (vmm.freed_entry frames) _

theorem freed_shaped {vmm : Vmm} (shaped : vmm.Shaped) (frames : List Nat) :
    (vmm.freed frames).Shaped :=
  shaped.congr (show (vmm.freed frames).pml4 = vmm.pml4 from rfl) (vmm.freed_entry frames)

theorem freed_used (vmm : Vmm) (frames : List Nat) (frame : Nat) :
    (vmm.freed frames).pmm.used frame = (vmm.pmm.used frame && decide (frame ∉ frames)) := by
  unfold freed
  induction frames generalizing vmm with
  | nil => simp
  | cons first rest ih =>
    rw [foldl_cons, ih { vmm with pmm := vmm.pmm.unsetBitmapBit first }]
    simp only [PmmOf.unsetBitmapBit_used, mem_cons, not_or, Bool.decide_and]
    cases vmm.pmm.used frame <;> simp

/-! ### Unmapping pages that are present -/

theorem unmapPages_mapped_step {vmm : Vmm} {vAddr : Nat} {entry : PageTableEntry} (pages : Nat)
    (mapped : vmm.leaf vAddr = some entry) :
    ∃ pt, vmm.tableAt (ptPath vAddr) = some pt ∧ unmapPages (pages + 1) vAddr vmm =
      unmapPages pages (word (vAddr + 0x1000))
        (vmm.storeEntry pt (ptIndex vAddr) PageTableEntry.zero) := by
  obtain ⟨pd, pt, atPd, small, atPt, _⟩ := leaf_table mapped
  have toPd : vmm.walkToPd vAddr = (pd, vmm) := walkTo_existing _ atPd
  have toPt : vmm.walkToPt vAddr = (pt, vmm) := walkTo_existing _ atPt
  refine ⟨pt, atPt, ?_⟩
  rw [unmapPages_small (by rw [toPd]; exact small), toPt]

/-- No table is created, so the bitmap stays as it is. -/
theorem unmapPages_mapped (pages vAddr : Nat) (vmm : Vmm) (shaped : vmm.Shaped)
    (mapped : ∀ offset < pages, (vmm.leaf (vAddr + 4096 * offset)).isSome = true)
    (bound : vAddr + 4096 * pages ≤ 2 ^ 64) (few : pages ≤ 2 ^ 36) :
    (∀ frame, (unmapPages pages vAddr vmm).pmm.used frame = vmm.pmm.used frame) ∧
    (∀ offset < pages, (unmapPages pages vAddr vmm).leaf (vAddr + 4096 * offset) = none) ∧
    ∀ other, (∀ offset < pages, page other ≠ page (vAddr + 4096 * offset)) →
      (unmapPages pages vAddr vmm).leaf other = vmm.leaf other := by
  induction pages generalizing vAddr vmm with
  | zero => exact ⟨fun _ => rfl, by simp, fun _ _ => rfl⟩
  | succ pages ih =>
    have here := mapped 0 (by omega)
    rw [Nat.mul_zero, Nat.add_zero] at here
    obtain ⟨entry, isLeaf⟩ := Option.isSome_iff_exists.mp here
    obtain ⟨pt, atPt, unmapped⟩ := unmapPages_mapped_step pages isLeaf
    have cleared := storeLeaf_leaf shaped atPt PageTableEntry.zero
    have later : ∀ offset < pages, page (vAddr + 4096 * (offset + 1)) ≠ page vAddr := by
      intro offset inRange
      unfold page
      omega
    have vNext : word (vAddr + 0x1000) ≤ vAddr + 0x1000 := Nat.mod_le _ _
    obtain ⟨used, gone, kept⟩ := ih (word (vAddr + 0x1000))
      (vmm.storeEntry pt (ptIndex vAddr) PageTableEntry.zero)
      (storeSlot_shaped shaped (by simp [ptPath]) (by simp [ptPath]) atPt (Or.inl rfl)
        (Or.inr rfl))
      (by
        intro offset inRange
        rw [advance_address inRange bound, cleared, if_neg (later offset inRange)]
        exact mapped (offset + 1) (by omega))
      (by omega) (by omega)
    rw [unmapped]
    refine ⟨used, ?_, ?_⟩
    · intro offset inRange
      cases offset with
      | zero =>
        rw [Nat.mul_zero]
        change (unmapPages _ _ _).leaf vAddr = none
        rw [kept vAddr, cleared, if_pos rfl]
        · rfl
        · intro offset inRange same
          rw [advance_address inRange bound] at same
          exact later offset inRange same.symm
      | succ offset =>
        rw [← advance_address (by omega : offset < pages) bound]
        exact gone offset (by omega)
    · intro other outside
      have notFirst : page other ≠ page vAddr := by
        simpa using outside 0 (by omega)
      rw [kept other, cleared, if_neg notFirst]
      intro offset inRange
      rw [advance_address inRange bound]
      exact outside (offset + 1) (by omega)

end Vmm

namespace Vma

/-! ### The loop -/

def freedFrames (limit : Nat) : Nat → Nat → Vmm → List Nat
  | 0, _, _ => []
  | fuel + 1, currentVAddr, vmm =>
    if currentVAddr < limit then
      let physical := vmm.vmmGetPhysicalFromVirtual currentVAddr
      physical.1 / 4096 ::
        match physical.2.pmm.pmmFreeFrames physical.1 1 with
        | .error _ => []
        | .ok pmm =>
          freedFrames limit fuel (word (currentVAddr + 0x1000)) { physical.2 with pmm := pmm }
    else []

section Loop

variable {limit fuel vAddr pages : Nat} {vmm after : Vmm}

theorem freedFrames_length (limitIs : vAddr + 4096 * pages = limit) (small : limit < 2 ^ 64)
    (run : freeFramesOf limit fuel vAddr vmm = .ok after) :
    (freedFrames limit fuel vAddr vmm).length = pages := by
  induction pages generalizing fuel vAddr vmm with
  | zero =>
    cases fuel with
    | zero => rfl
    | succ fuel =>
      rw [freedFrames, if_neg (by omega)]
      rfl
  | succ pages ih =>
    cases fuel with
    | zero => cases run
    | succ fuel =>
      have below : vAddr < limit := by omega
      have next : word (vAddr + 0x1000) = vAddr + 0x1000 := word_of_lt (by omega)
      rw [freeFramesOf, if_pos below] at run
      obtain ⟨pmm, freeing, rest⟩ := bind_eq_ok run
      rw [freedFrames, if_pos below]
      dsimp only
      rw [freeing, length_cons]
      rw [next] at rest ⊢
      rw [ih (by omega) rest]

theorem physical_lt (vmm : Vmm) (vAddr : Nat) :
    (vmm.vmmGetPhysicalFromVirtual vAddr).1 < 2 ^ 64 := by
  unfold Vmm.vmmGetPhysicalFromVirtual
  dsimp only
  split
  · exact word_lt _
  · exact word_lt _

theorem freedFrames_lt : ∀ frame ∈ freedFrames limit fuel vAddr vmm, frame < 2 ^ 52 := by
  induction fuel generalizing vAddr vmm with
  | zero =>
    intro frame member
    cases member
  | succ fuel ih =>
    intro frame member
    rw [freedFrames] at member
    split at member
    · cases mem_cons.mp member with
      | inl here =>
        have cut := physical_lt vmm vAddr
        omega
      | inr later =>
        split at later
        · cases later
        · exact ih frame later
    · cases member

theorem physical_of_leaf {entry : PageTableEntry} (mapped : vmm.leaf vAddr = some entry)
    (aligned : vAddr % 4096 = 0) (small : entry.physicalAddress < 2 ^ 52) :
    vmm.vmmGetPhysicalFromVirtual vAddr = (entry.physicalAddress * 4096, vmm) := by
  rw [Vmm.vmmGetPhysicalFromVirtual_mapped mapped, aligned, Nat.add_zero,
    word_of_lt (by omega)]

section Present

variable {entry : PageTableEntry} (below : vAddr < limit) (mapped : vmm.leaf vAddr = some entry)
  (aligned : vAddr % 4096 = 0) (small : entry.physicalAddress < 2 ^ 52)

include below mapped aligned small

theorem freeFramesOf_step :
    freeFramesOf limit (fuel + 1) vAddr vmm = .ok after ↔
      (entry.physicalAddress < vmm.pmm.bitmapSizeFrames ∧
        vmm.pmm.used entry.physicalAddress = true) ∧
      freeFramesOf limit fuel (word (vAddr + 0x1000))
        { vmm with pmm := vmm.pmm.unsetBitmapBit entry.physicalAddress } = .ok after := by
  rw [freeFramesOf, if_pos below, physical_of_leaf mapped aligned small]
  constructor
  · intro run
    obtain ⟨pmm, freeing, rest⟩ := bind_eq_ok run
    obtain ⟨held, cleared⟩ := (PmmOf.pmmFreeFrames_one_iff small).mp freeing
    rw [cleared] at rest
    exact ⟨held, rest⟩
  · intro run
    dsimp only
    rw [(PmmOf.pmmFreeFrames_one_iff small).mpr ⟨run.1, rfl⟩]
    exact run.2

theorem freedFrames_step (held : entry.physicalAddress < vmm.pmm.bitmapSizeFrames ∧
    vmm.pmm.used entry.physicalAddress = true) :
    freedFrames limit (fuel + 1) vAddr vmm = entry.physicalAddress ::
      freedFrames limit fuel (word (vAddr + 0x1000))
        { vmm with pmm := vmm.pmm.unsetBitmapBit entry.physicalAddress } := by
  have frameIs : entry.physicalAddress * 4096 / 4096 = entry.physicalAddress := by omega
  rw [freedFrames, if_pos below, physical_of_leaf mapped aligned small]
  dsimp only
  rw [frameIs, (PmmOf.pmmFreeFrames_one_iff small).mpr ⟨held, rfl⟩]

end Present

/-- Over pages that are all present the loop returns exactly when the leaves own
their frames, and then it has cleared just these. -/
theorem freeFramesOf_touched (limitIs : vAddr + 4096 * pages = limit) (bound : limit < 2 ^ 64)
    (enough : pages < fuel) (aligned : vAddr % 4096 = 0)
    (touched : ∀ offset < pages, (vmm.leaf (vAddr + 4096 * offset)).isSome = true)
    (small : ∀ frame ∈ vmm.leafFrames vAddr pages, frame < 2 ^ 52) :
    (freeFramesOf limit fuel vAddr vmm = .ok after ↔
      vmm.Owns (vmm.leafFrames vAddr pages) ∧
        after = vmm.freed (vmm.leafFrames vAddr pages)) ∧
    (vmm.Owns (vmm.leafFrames vAddr pages) →
      freedFrames limit fuel vAddr vmm = vmm.leafFrames vAddr pages) := by
  induction pages generalizing fuel vAddr vmm with
  | zero =>
    cases fuel with
    | zero => cases enough
    | succ fuel =>
      have done : ¬ vAddr < limit := by omega
      rw [freeFramesOf, freedFrames, if_neg done, if_neg done]
      constructor
      · constructor
        · intro same
          exact ⟨⟨nodup_nil, fun _ member => nomatch member⟩, (Except.ok.inj same).symm⟩
        · intro freed
          rw [freed.2]
          rfl
      · intro _
        rfl
  | succ pages ih =>
    cases fuel with
    | zero => cases enough
    | succ fuel =>
      have below : vAddr < limit := by omega
      have next : word (vAddr + 0x1000) = vAddr + 4096 := word_of_lt (by omega)
      have here := touched 0 (by omega)
      rw [Nat.mul_zero, Nat.add_zero] at here
      obtain ⟨entry, isLeaf⟩ := Option.isSome_iff_exists.mp here
      rw [Vmm.leafFrames_mapped pages isLeaf] at small ⊢
      have firstSmall := small _ mem_cons_self
      have laterTouched : ∀ offset < pages,
          (({ vmm with pmm := vmm.pmm.unsetBitmapBit entry.physicalAddress } : Vmm).leaf
            (vAddr + 4096 + 4096 * offset)).isSome = true := by
        intro offset inRange
        have later := touched (offset + 1) (by omega)
        rw [Nat.mul_add, Nat.mul_one, Nat.add_comm (4096 * offset), ← Nat.add_assoc] at later
        rw [Vmm.leaf_release]
        exact later
      have rest := ih (by omega) (by omega : pages < fuel) (by omega) laterTouched
        (by
          intro frame member
          rw [Vmm.leafFrames_release] at member
          exact small frame (mem_cons_of_mem _ member))
      rw [Vmm.leafFrames_release] at rest
      rw [freeFramesOf_step below isLeaf aligned firstSmall, next, rest.1, ← and_assoc,
        ← Vmm.Owns.cons_iff]
      refine ⟨Iff.rfl, ?_⟩
      intro owns
      obtain ⟨held, others⟩ := Vmm.Owns.cons_iff.mp owns
      rw [freedFrames_step below isLeaf aligned firstSmall held, next, rest.2 others]

end Loop

/-! ### Freeing a regular region -/

def freedBy (vma : Vma) (node : Nat) : List Nat :=
  freedFrames (word (vma.startOf node + vma.sizeOf node)) (vma.sizeOf node / 4096 + 2)
    (vma.startOf node) vma.vmm

def backing (vma : Vma) (node : Nat) : List Nat :=
  vma.vmm.leafFrames (vma.startOf node) (vma.sizeOf node / 4096)

/-- What a free of the region should do to the frames and the page tables, `vmm`
being what it leaves of them. -/
structure Releases (vma : Vma) (node : Nat) (vmm : Vmm) : Prop where
  returned : unback (vma.region node) vma.vmm = .ok vmm
  freed : (vma.freedBy node).Perm (vma.backing node)
  sentinel : 0 ∉ vma.freedBy node
  cleared : ∀ frame, vmm.pmm.used frame =
    (vma.vmm.pmm.used frame && decide (frame ∉ vma.backing node))
  absent : ∀ offset < vma.sizeOf node / 4096, vmm.leaf (vma.startOf node + 4096 * offset) = none
  final : ∀ after, vmaFreeMemoryFromKtree (vma.startOf node) vma = .ok after → after.vmm = vmm

/-- Every page of the region was touched, and each stands on a frame of its own. -/
structure Backed (vma : Vma) (node : Nat) : Prop where
  touched : ∀ offset < vma.sizeOf node / 4096,
    (vma.vmm.leaf (vma.startOf node + 4096 * offset)).isSome = true
  owned : vma.vmm.Owns (vma.backing node)
  nonzero : 0 ∉ vma.backing node

section Regions

variable {vma after : Vma} {shape : Shapes} {chain : List Nat} {tree : KTree} {node : Nat}
  {goal : SummaryGoal VmRegion Nat}

/-- The rest of a free touches neither frames nor page tables. -/
theorem coalesce_vmm {successor predecessor : Nat}
    (run : coalesce tree node successor predecessor vma = .ok after) : after.vmm = vma.vmm := by
  have removed : ∀ {gone : Nat} {before left : Vma},
      removeFromTree tree gone before = .ok left → left.vmm = before.vmm := by
    intro gone before left removing
    obtain ⟨result, _, set⟩ := bind_eq_ok removing
    cases set
    cases tree with
    | heap => rfl
    | mmio => rfl
  unfold coalesce at run
  dsimp only at run
  split at run
  · obtain ⟨first, firstGone, rest⟩ := bind_eq_ok run
    obtain ⟨second, secondGone, rest⟩ := bind_eq_ok rest
    cases rest
    change second.vmm = _
    rw [removed secondGone, removed firstGone]
    rfl
  · split at run
    · obtain ⟨left, gone, rest⟩ := bind_eq_ok run
      cases rest
      change left.vmm = _
      rw [removed gone]
      rfl
    · split at run
      · obtain ⟨left, gone, rest⟩ := bind_eq_ok run
        cases rest
        change left.vmm = _
        rw [removed gone]
        rfl
      · cases run
        rfl

theorem free_vmm {start : Nat} {vmm : Vmm}
    (found : AvlStore.avlGetNode (fun store other => vmAvlCompAddr start (store.data other))
      treeFuel (vma.root tree) vma.nodes = .ok node)
    (unbacking : unback (vma.region node) vma.vmm = .ok vmm)
    (run : vmaFreeMemoryFromTree tree start vma = .ok after) : after.vmm = vmm := by
  unfold vmaFreeMemoryFromTree at run
  rw [found, ok_bind] at run
  split at run
  · cases run
  rw [unbacking, ok_bind] at run
  obtain ⟨successor, _, rest⟩ := bind_eq_ok run
  obtain ⟨predecessor, _, rest⟩ := bind_eq_ok rest
  exact coalesce_vmm rest

theorem Geometry.aligned (geometry : vma.Geometry shape) (member : node ∈ (shape tree).inorder) :
    vma.startOf node % 4096 = 0 := by
  obtain ⟨front, back, order⟩ := append_of_mem member
  have covers := (Tiles.iff_covers.mp (geometry.tiles tree)).1
  rw [order] at covers
  obtain ⟨middle, ahead, here⟩ := Covers.append_iff.mp covers
  have startIs : vma.startOf node = middle := here.1
  have total := ahead.sum_eq
  have whole : 4096 ∣ (front.map vma.sizeOf).sum := by
    apply dvd_sum
    intro size isSize
    obtain ⟨other, inFront, rfl⟩ := mem_map.mp isSize
    apply Nat.dvd_of_mod_eq_zero
    apply geometry.pages tree other
    rw [order]
    exact mem_append_left _ inFront
  have base : treeStart tree % 4096 = 0 := by
    cases tree <;> decide
  omega

theorem ktree_frees (geometry : vma.Geometry shape) (member : node ∈ (shape tree).inorder) :
    vmaFreeMemoryFromKtree (vma.startOf node) vma =
      vmaFreeMemoryFromTree tree (vma.startOf node) vma := by
  have room := geometry.bounds member
  unfold vmaFreeMemoryFromKtree
  cases tree with
  | heap =>
    change kernelHeapStart ≤ _ ∧ _ ∧ _ ≤ kernelHeapLimit at room
    rw [if_pos (by omega)]
  | mmio =>
    change kernelMmioStart ≤ _ ∧ _ ∧ _ ≤ kernelMmioLimit at room
    have apart : kernelMmioLimit ≤ kernelHeapStart := by decide
    rw [if_neg (by omega), if_pos (by omega)]

theorem unback_regular {vmm : Vmm} (regular : (vma.region node).type = .regular)
    (room : 4096 ≤ vma.sizeOf node) :
    unback (vma.region node) vma.vmm = .ok vmm ↔
      ∃ freed, freeFramesOf (word (vma.startOf node + vma.sizeOf node))
        (vma.sizeOf node / 4096 + 2) (vma.startOf node) vma.vmm = .ok freed ∧
        vmm = Vmm.unmapPages (vma.sizeOf node / 4096) (vma.startOf node) freed := by
  have some : vma.sizeOf node / 4096 ≠ 0 := by omega
  have unmapped : ∀ freed : Vmm,
      (freed.vmmUnmap (vma.startOf node) (vma.sizeOf node / 4096)).2 =
        Vmm.unmapPages (vma.sizeOf node / 4096) (vma.startOf node) freed := by
    intro freed
    unfold Vmm.vmmUnmap
    rw [if_neg some]
  unfold unback
  rw [regular]
  dsimp only
  constructor
  · intro run
    obtain ⟨freed, freeing, rest⟩ := bind_eq_ok run
    exact ⟨freed, freeing, (Except.ok.inj rest).symm.trans (unmapped freed)⟩
  · rintro ⟨freed, freeing, rfl⟩
    change (freeFramesOf (word (vma.startOf node + vma.sizeOf node))
      (vma.sizeOf node / 4096 + 2) (vma.startOf node) vma.vmm >>= _) = _
    rw [freeing, ← unmapped]
    rfl

/-- A free of a regular region does what it should to the frames and the page tables
exactly when every page was touched and stands on a frame of its own. -/
theorem vmaFreeMemoryFromKtree_releases_iff (sound : vma.Sound goal shape chain [])
    (shaped : vma.vmm.Shaped) (member : node ∈ (shape tree).inorder)
    (regular : (vma.region node).type = .regular)
    (found : AvlStore.avlGetNode
      (fun store other => vmAvlCompAddr (vma.startOf node) (store.data other)) treeFuel
      (vma.root tree) vma.nodes = .ok node) :
    (∃ vmm, vma.Releases node vmm) ↔ vma.Backed node := by
  have room := sound.geometry.bounds member
  have whole := sound.geometry.pages tree node member
  have aligned := sound.geometry.aligned member
  have top := treeLimit_lt tree
  have limitIs : vma.startOf node + 4096 * (vma.sizeOf node / 4096) =
      word (vma.startOf node + vma.sizeOf node) := by
    rw [word_of_lt (by omega)]
    omega
  have bound := word_lt (vma.startOf node + vma.sizeOf node)
  constructor
  · rintro ⟨vmm, releases⟩
    obtain ⟨freed, run, _⟩ := (unback_regular regular room.2.1).mp releases.returned
    have count := freedFrames_length limitIs bound run
    have touched := Vmm.leafFrames_full (releases.freed.length_eq.symm.trans count)
    have small : ∀ frame ∈ vma.backing node, frame < 2 ^ 52 := fun frame inBacking =>
      freedFrames_lt frame (releases.freed.mem_iff.mpr inBacking)
    have owned := ((freeFramesOf_touched limitIs bound (by omega) aligned touched small).1.mp run).1
    exact ⟨touched, owned, fun zero => releases.sentinel (releases.freed.mem_iff.mpr zero)⟩
  · intro backed
    have frames := vma.vmm.pmm.framesBound
    have small : ∀ frame ∈ vma.backing node, frame < 2 ^ 52 := fun frame inBacking => by
      have inRange := (backed.owned.used frame inBacking).1
      omega
    obtain ⟨runs, inOrder⟩ : (freeFramesOf _ _ _ _ = .ok (vma.vmm.freed (vma.backing node)) ↔ _) ∧ _ :=
      freeFramesOf_touched limitIs bound (by omega : _ < vma.sizeOf node / 4096 + 2) aligned
        backed.touched small
    have freed : vma.freedBy node = vma.backing node := inOrder backed.owned
    have unbacking := (unback_regular regular room.2.1).mpr
      ⟨_, runs.mpr ⟨backed.owned, rfl⟩, rfl⟩
    obtain ⟨used, gone, _⟩ := Vmm.unmapPages_mapped (vma.sizeOf node / 4096) (vma.startOf node)
      (vma.vmm.freed (vma.backing node)) (Vmm.freed_shaped shaped _)
      (fun offset inRange => by
        rw [Vmm.freed_leaf]
        exact backed.touched offset inRange)
      (by omega) (by
        have span := treeLimit_eq tree
        omega)
    refine ⟨_, unbacking, ?_, ?_, ?_, gone, ?_⟩
    · rw [freed]
    · rw [freed]
      exact backed.nonzero
    · intro frame
      rw [used, Vmm.freed_used]
    · intro after run
      rw [ktree_frees sound.geometry member] at run
      exact free_vmm found unbacking run

end Regions

def touchedTables : Vmm :=
  ((Vmm.emptyTables.claimed 2).vmmMap (kernelHeapStart + 4096) 0x2000 1 slabFlags).2

theorem touchedTables_shaped : touchedTables.Shaped := by
  have free : 2 ∈ Vmm.freeFrames Vmm.emptyTables.pmm := by decide
  have formed := Vmm.claimed_wellFormed Vmm.emptyTables_wellFormed free
  have enough : (Vmm.emptyTables.claimed 2).Supplied
      (Vmm.rangePaths (kernelHeapStart + 4096) 1) := by
    unfold Vmm.Supplied
    exact Nat.le_trans (Finset.card_filter_le _ _) (by decide +kernel)
  rcases (Vmm.mapPages_cases slabFlags (by decide) _ (fun _ member => Vmm.rangePaths_short member)
    1 (kernelHeapStart + 4096) 0x2000 _ formed enough
    (fun offset inRange => Finset.subset_biUnion_of_mem
      (fun k => Vmm.walkPaths (kernelHeapStart + 4096 + 4096 * k)) (Finset.mem_range.mpr inRange))
    (by decide +kernel) (by decide) (by decide) (by decide)).2 with mapped | busy
  · exact mapped.2.2.formed.shaped
  · obtain ⟨offset, inRange, present⟩ := busy.1
    obtain rfl : offset = 0 := by omega
    exact absurd (by decide +kernel) present

def secondNode : Nat := kernelHeapStart + 88

/-- One page is allocated and touched. -/
theorem vmaFreeMemoryFromKtree_releases_iff_touchedPage : ∃ vma : Vma,
    vma.vmm = touchedTables ∧ (vma.region secondNode).type = .regular ∧
      ∃ vmm, vma.Releases secondNode vmm := by
  obtain ⟨initial, final, started, run, member, regular, found, touched, backing⟩ :=
    VmaSystem.exists_run Vmm.emptyTables [.allocate 4096 .regular slabFlags none]
      (fun system call => system.Admissible call ∧ system.Safe (fun _ => True) call)
      (fun final => secondNode ∈ (final.vma.shapes .heap).inorder ∧
        (final.vma.region secondNode).type = .regular ∧
        (AvlStore.avlGetNode (fun store other =>
          vmAvlCompAddr (final.vma.startOf secondNode) (store.data other)) treeFuel
          (final.vma.root .heap) final.vma.nodes).toOption = some secondNode ∧
        (∀ offset < final.vma.sizeOf secondNode / 4096,
          (touchedTables.leaf (final.vma.startOf secondNode + 4096 * offset)).isSome = true) ∧
        touchedTables.leafFrames (final.vma.startOf secondNode)
          (final.vma.sizeOf secondNode / 4096) = [2])
      (by decide +kernel)
  obtain ⟨shape, chain, steady⟩ := VmaSystem.run_keeps started run
  have sound : ({ final.vma with vmm := touchedTables } : Vma).Sound _ shape chain [] :=
    steady.sound.sameNodes rfl
  rw [steady.sound.shapes_eq] at member
  have isNode : AvlStore.avlGetNode (fun store other =>
      vmAvlCompAddr (final.vma.startOf secondNode) (store.data other)) treeFuel
      (final.vma.root .heap) final.vma.nodes = .ok secondNode := by
    cases search : AvlStore.avlGetNode (fun store other =>
      vmAvlCompAddr (final.vma.startOf secondNode) (store.data other)) treeFuel
      (final.vma.root .heap) final.vma.nodes with
    | error fault =>
      rw [search] at found
      cases found
    | ok other =>
      rw [search] at found
      rw [Option.some.inj found]
  refine ⟨{ final.vma with vmm := touchedTables }, rfl, regular, ?_⟩
  apply (vmaFreeMemoryFromKtree_releases_iff sound touchedTables_shaped member regular isNode).mpr
  have stands : ({ final.vma with vmm := touchedTables } : Vma).backing secondNode = [2] := backing
  refine ⟨touched, ?_, ?_⟩
  · rw [stands]
    refine ⟨nodup_singleton 2, ?_⟩
    intro frame isFrame
    rw [mem_singleton.mp isFrame]
    have held : 2 < touchedTables.pmm.bitmapSizeFrames ∧ touchedTables.pmm.used 2 = true := by
      decide +kernel
    exact held
  · rw [stands]
    decide

/-- Two pages are allocated and given back untouched: the first round frees frame 0,
the second panics. -/
theorem vmaFreeMemoryFromKtree_frees_frame_zero : ∃ initial final,
    vmaInit Vmm.emptyTables = .ok initial ∧
    Run VmaSystem.call (fun system call => system.Admissible call ∧ system.Safe (fun _ => True) call)
      ⟨initial, []⟩ [.allocate 8192 .regular slabFlags none] final ∧
    (final.vma.region secondNode).type = .regular ∧ final.vma.backing secondNode = [] ∧
    final.vma.freedBy secondNode = [0, 0] ∧
    (vmaFreeMemoryFromKtree (final.vma.startOf secondNode) final.vma).toOption.isNone = true ∧
    ¬ ∃ vmm, final.vma.Releases secondNode vmm := by
  obtain ⟨initial, final, started, run, regular, backing, freed, stopped⟩ :=
    VmaSystem.exists_run Vmm.emptyTables [.allocate 8192 .regular slabFlags none]
      (fun system call => system.Admissible call ∧ system.Safe (fun _ => True) call)
      (fun final => (final.vma.region secondNode).type = .regular ∧
        final.vma.backing secondNode = [] ∧ final.vma.freedBy secondNode = [0, 0] ∧
        (vmaFreeMemoryFromKtree (final.vma.startOf secondNode) final.vma).toOption.isNone = true)
      (by decide +kernel)
  refine ⟨initial, final, started, run, regular, backing, freed, stopped, ?_⟩
  rintro ⟨vmm, releases⟩
  have zero : 0 ∈ final.vma.freedBy secondNode := by
    rw [freed]
    exact mem_cons_self
  exact releases.sentinel zero

end Vma

end Fesos
