/-
The MMIO mappings of memory/kmalloc.c.

`kmap_mmio` rounds the physical range to whole pages, lets the VMA map it into a
region of the MMIO tree and adds the offset in the page back.  It keeps its promise
exactly when the node for a split is at hand: with a low slab and a heap that cannot
serve another slab page the call faults.
-/

import Fesos.Kmalloc
import Fesos.VmaRefusal
import Fesos.VmaSupply
import Fesos.VmaUnback
import Fesos.VmmPin

set_option autoImplicit false

namespace Fesos

open BinaryTree Library Function
open List hiding nil

namespace Vma

/-! ### The code -/

/-- The other word of the backing is not initialised and not read. -/
def kmapMmio (physicalAddress size : Nat) (mmioFlag : MmioFlags) (vma : Vma) :
    Except Fault (Nat × Vma) := do
  let virtualBase ← vmaAllocateMemoryFromKtree (mmioSize physicalAddress size) .hardwareMmio
    mmioFlag.vmmFlags (some ⟨physicalAddress / 4096 * 4096, 0⟩) vma
  if virtualBase.1 = 0 then pure (0, virtualBase.2)
  else pure (word (virtualBase.1 + physicalAddress % 4096), virtualBase.2)

def kunmapMmio (virtualAddress : Nat) (vma : Vma) : Except Fault Vma :=
  vmaFreeMemoryFromKtree virtualAddress vma

end Vma

namespace Vmm

/-! ### Frames left after a fault -/

/-- Serving a fault leaves the frames for the other tables that are needed. -/
theorem page_in_supplied {vmm : Vmm} {vAddr flags : Nat} {paths : Finset (List (Fin 512))}
    (formed : vmm.WellFormed) (small : vmm.hugeAt vAddr = false)
    (notHuge : flagBit flags 4 = false) (inWord : vAddr + 4096 ≤ 2 ^ 64)
    (pathsShort : ∀ path ∈ paths, path.length ≤ 3) (covered : walkPaths vAddr ⊆ paths)
    (supplied : (vmm.missingTables paths).card + 1 ≤ (freeFrames vmm.pmm).card) :
    (vmm.pageIn vAddr flags).Supplied paths := by
  unfold pageIn
  rcases allocate_one_cases vmm.pmm with ⟨frame, free, _least, allocated⟩ | ⟨empty, _refused⟩
  · have fewer : freeFrames (vmm.claimed frame).pmm = (freeFrames vmm.pmm).erase frame :=
      freeFrames_claim vmm.pmm frame
    have claimedSupplied : (vmm.claimed frame).Supplied paths := by
      unfold Supplied
      rw [claimed_missing formed free pathsShort, fewer, Finset.card_erase_of_mem free]
      omega
    have inBitmap := (mem_freeFrames.mp free).1
    have frames := vmm.pmm.framesBound
    rw [allocated]
    change (mapPages flags 1 vAddr (frame * 4096) (vmm.claimed frame)).2.Supplied paths
    have onlyHere : ∀ offset < 1, vAddr + 4096 * offset = vAddr := fun offset inRange => by omega
    apply (mapPages_cases flags notHuge paths pathsShort 1 vAddr (frame * 4096) (vmm.claimed frame)
      (claimed_wellFormed formed free) claimedSupplied _ _ (by omega) (by decide) (by omega)).1
    · intro offset inRange
      rw [onlyHere offset inRange]
      exact covered
    · intro offset inRange
      rw [onlyHere offset inRange, claimed_hugeAt formed free]
      exact small
  · rw [empty, Finset.card_empty] at supplied
    exact absurd supplied (Nat.not_succ_le_zero _)

end Vmm

namespace Vma

/-! ### Following the call -/

/-- The state once the region is cut out, with its backing recorded and its pages mapped. -/
def mmioBacked (carved : Vma) (chosen physicalAddress size : Nat) (mmioFlag : MmioFlags) : Vma :=
  { carved.setRegion chosen { carved.region chosen with
      backing := { (carved.region chosen).backing with first := physicalAddress / 4096 * 4096 } } with
    vmm := (carved.vmm.vmmMap (carved.startOf chosen) (physicalAddress / 4096 * 4096)
      (mmioSize physicalAddress size / 4096) mmioFlag.vmmFlags).2 }

section Call

variable {vma carved : Vma} {shape : Shapes} {chain loose : List Nat}
  {chosen physicalAddress size : Nat} {mmioFlag : MmioFlags}
  {goal : SummaryGoal VmRegion Nat}

theorem kmapMmio_carve (sound : vma.Sound goal shape chain loose)
    (found : vma.candidate (shape .mmio) = some chosen) :
    kmapMmio physicalAddress size mmioFlag vma =
      carve allocVmDsNode .mmio (mmioSize physicalAddress size) .hardwareMmio mmioFlag.vmmFlags
        chosen vma >>= fun carved =>
      if carved.startOf chosen = 0 then
        .ok (0, carved.mmioBacked chosen physicalAddress size mmioFlag)
      else .ok (word (carved.startOf chosen + physicalAddress % 4096),
        carved.mmioBacked chosen physicalAddress size mmioFlag) := by
  have nonzero := (sound.layout.linked .mmio).ne_zero (candidate_free found).1
  have serving : servingTree .hardwareMmio (some ⟨physicalAddress / 4096 * 4096, 0⟩) =
      .ok .mmio := rfl
  unfold kmapMmio
  rw [ktree_serves serving]
  unfold vmaAllocateMemoryFromTreeWith
  rw [if_neg (by decide), worstFit_candidate sound, found, ok_bind, Option.getD_some,
    if_neg nonzero, bind_assoc]
  apply bind_congr
  intro carved
  have startIs : ((carved.mmioBacked chosen physicalAddress size mmioFlag).region chosen).startAddr =
      carved.startOf chosen := by
    change ((carved.setRegion chosen _).region chosen).startAddr = _
    rw [setRegion_region, if_pos rfl]
    rfl
  rw [← startIs]
  rfl

/-- The node a split needs is at hand, or the slab can be grown for it. -/
def NodeAtHand (vma : Vma) (shape : Shapes) (chosen size : Nat) : Prop :=
  size = vma.sizeOf chosen ∨ minimumAvailableNodes < vma.freeNodeCount ∨
    (vma.replenishing vma.freeList).CanReplenish shape

def GrowsSlab (vma : Vma) (chosen size : Nat) : Prop :=
  ¬ size = vma.sizeOf chosen ∧ vma.freeNodeCount ≤ minimumAvailableNodes

/-- What the page tables and the slab are once the region is cut out. -/
inductive Supplies (vma carved : Vma) (shape : Shapes) (chosen size : Nat) : Prop where
  | plain (sameVmm : carved.vmm = vma.vmm)
  | grown (slab : Nat) (grows : vma.GrowsSlab chosen size)
      (found : vma.candidate (shape .heap) = some slab)
      (slabPages : carved.slabPages = vma.startOf slab :: vma.slabPages)
      (faulted : vma.vmm.leaf (vma.startOf slab + 40) = none)
      (paged : carved.vmm = vma.vmm.pageIn (vma.startOf slab + 40) slabFlags)

structure CarvedGrown (vma carved : Vma) (shape : Shapes) (chosen size slab : Nat)
    (type : VmNodeType) (flags : Nat) : Prop where
  found : vma.candidate (shape .heap) = some slab
  trees : ∃ newShape newChain, carved.Wired newShape newChain [] ∧
    (∀ tree, (newShape tree).inorder.length ≤ (shape tree).inorder.length + 1) ∧
    chosen ∈ (newShape .mmio).inorder ∧
    ∃ node ∈ (shape .heap).inorder, node ∈ (newShape .heap).inorder ∧
      (vma.region node).type = .free ∧ (carved.region node).type = .regular
  here : carved.region chosen =
    { vma.region chosen with type := type, flags := flags, size := size }
  slabPages : carved.slabPages = vma.startOf slab :: vma.slabPages
  tables : carved.vmm = vma.vmm ∨ vma.vmm.leaf (vma.startOf slab + 40) = none ∧
    carved.vmm = vma.vmm.pageIn (vma.startOf slab + 40) slabFlags

section

variable (sound : vma.Sound goal shape chain []) (stocked : minimumAvailableNodes ≤ chain.length)
  (calm : vma.inReplenishCycle = false) (small : ∀ address, vma.vmm.hugeAt address = false)

include sound stocked calm small

theorem carve_grows
    (member : chosen ∈ (shape .mmio).inorder) (grows : vma.GrowsSlab chosen size)
    (can : (vma.replenishing vma.freeList).CanReplenish shape) (type : VmNodeType) (flags : Nat) :
    ∃ slab carved, carve allocVmDsNode .mmio size type flags chosen vma = .ok carved ∧
      CarvedGrown vma carved shape chosen size slab type flags := by
  have low := grows.2
  have short := sound.geometry.short .mmio
  rw [sound.layout.counted] at low
  cases chain with
  | nil => cases stocked
  | cons first rest =>
    have nonzero := sound.layout.head_ne_zero
    have notFirst : ∀ owner, ∀ other ∈ (shape owner).inorder, other ≠ first :=
      fun owner other inTree same => sound.layout.not_chain inTree (same ▸ mem_cons_self)
    rw [freeList_head sound] at can
    cases rest with
    | nil => simp [minimumAvailableNodes] at stocked
    | cons second rest =>
      rw [length_cons] at low
      obtain ⟨slab, middle, newShape, found, supply, grown, tables⟩ :=
        alloc_replenishes sound (by omega) calm small can
      obtain ⟨newChain, _stocked, _few, wired⟩ := grown.wired
      have inNew : chosen ∈ (newShape .mmio).inorder := by
        rw [grown.sameShape]
        exact member
      obtain ⟨carved, run, carvedWired, reshaped, _spares⟩ := wired.carve_split nonzero
        (by rw [grown.sameShape]; omega) inNew grows.1 supply type flags
      refine ⟨slab, carved, run, found, ⟨_, _, carvedWired, ?_, ?_, ?_⟩, ?_, ?_, ?_⟩
      · intro tree
        cases tree with
        | heap =>
          rw [update_of_ne KTree.noConfusion]
          exact grown.few
        | mmio =>
          rw [update_self, grown.sameShape]
          exact (splitTree_perm _ _ _ _ _).length_eq.le
      · rw [update_self]
        exact (splitTree_perm _ _ _ _ _).mem_iff.mpr (mem_cons_of_mem _ inNew)
      · obtain ⟨busy, inOld, inHeap, wasFree, isRegular⟩ := grown.busy
        refine ⟨busy, inOld, ?_, wasFree, ?_⟩
        · rw [update_of_ne KTree.noConfusion]
          exact inHeap
        · have notChosen : busy ≠ chosen := fun same =>
            sound.layout.trees_apart (KTree.noConfusion : KTree.heap ≠ .mmio) member
              (same ▸ inOld)
          rw [reshaped.regions, cut_region _ nonzero (notFirst .mmio chosen member),
            if_neg notChosen, if_neg (notFirst .heap busy inOld)]
          exact isRegular
      · rw [reshaped.regions, cut_region _ nonzero (notFirst .mmio chosen member), if_pos rfl,
          grown.spares.region member]
      · exact reshaped.slabPages.trans grown.slabPages
      · rw [reshaped.vmm]
        exact tables

theorem carve_at_hand
    (found : vma.candidate (shape .mmio) = some chosen)
    (atHand : vma.NodeAtHand shape chosen size) (type : VmNodeType) (flags : Nat) :
    ∃ carved, carve allocVmDsNode .mmio size type flags chosen vma = .ok carved ∧
      carved.region chosen =
        { vma.region chosen with type := type, flags := flags, size := size } ∧
      Supplies vma carved shape chosen size := by
  have member := (candidate_free found).1
  have few := sound.layout.chain_few sound.geometry
  have short := sound.geometry.short .mmio
  have counted := sound.layout.counted
  by_cases grows : vma.GrowsSlab chosen size
  · have can := (atHand.resolve_left grows.1).resolve_left (Nat.not_lt.mpr grows.2)
    obtain ⟨slab, carved, run, grown⟩ :=
      carve_grows sound stocked calm small member grows can type flags
    refine ⟨carved, run, grown.here, ?_⟩
    rcases grown.tables with sameVmm | ⟨faulted, paged⟩
    · exact Supplies.plain sameVmm
    · exact Supplies.grown slab grows grown.found grown.slabPages faulted paged
  · cases chain with
    | nil => cases stocked
    | cons first rest =>
      have nonzero := sound.layout.head_ne_zero
      have different := sound.layout.ne_head member
      have plenty : ¬ size = vma.sizeOf chosen → minimumAvailableNodes ≤ rest.length := by
        intro inexact
        have many : ¬ vma.freeNodeCount ≤ minimumAvailableNodes := fun low => grows ⟨inexact, low⟩
        rw [counted, length_cons] at many
        omega
      obtain ⟨carved, run, _wired, regions, sameVmm, _slabs, _flag, _spares⟩ :=
        sound.wired.carve_taken nonzero (by omega) (by omega) member
          (fun inexact => alloc_plenty sound (plenty inexact)) type flags
      refine ⟨carved, run, ?_, Supplies.plain sameVmm⟩
      rw [regions, grantRegion_node nonzero different]

theorem carve_not_at_hand
    (missing : ¬ vma.NodeAtHand shape chosen size) (tree : KTree) (type : VmNodeType) (flags : Nat) :
    ∃ fault, carve allocVmDsNode tree size type flags chosen vma = .error fault := by
  have counted := sound.layout.counted
  unfold NodeAtHand at missing
  rw [not_or, not_or] at missing
  obtain ⟨inexact, low, cannot⟩ := missing
  cases chain with
  | nil => cases stocked
  | cons first rest =>
    rw [length_cons] at counted stocked
    rw [freeList_head sound] at cannot
    cases rest with
    | nil => simp [minimumAvailableNodes] at stocked
    | cons second rest =>
      obtain ⟨fault, failed⟩ := alloc_fails sound (by omega) calm small cannot
      refine ⟨fault, ?_⟩
      rw [carve, if_neg (show ¬ size = (vma.region chosen).size from inexact), failed]
      rfl

end

end Call

/-! ### The mapping -/

def InNewSlab (vma after : Vma) (vAddr : Nat) : Prop :=
  ∃ page ∈ after.slabPages, page ∉ vma.slabPages ∧ page ≤ vAddr ∧ vAddr < page + 4096

/-- What `kmap_mmio` promises: the offset in the page is kept, every byte of the physical
range is translated, and all pages mapped lie in the region that was allocated, except for
a new slab page. -/
structure MmioMapped (vma after : Vma) (chosen physicalAddress size virtual : Nat) : Prop where
  offset : virtual % 4096 = physicalAddress % 4096
  translates : ∀ k < size,
    (after.vmm.vmmGetPhysicalFromVirtual (virtual + k)).1 = physicalAddress + k
  startSame : after.startOf chosen = vma.startOf chosen
  sizeIs : after.sizeOf chosen = mmioSize physicalAddress size
  typeIs : (after.region chosen).type = .hardwareMmio
  inside : ∀ vAddr, Vmm.Canonical vAddr → after.vmm.leaf vAddr ≠ vma.vmm.leaf vAddr →
    after.startOf chosen ≤ vAddr ∧ vAddr < after.startOf chosen + after.sizeOf chosen ∨
      vma.InNewSlab after vAddr

theorem mmioSize_eq {physicalAddress size : Nat} (bound : physicalAddress + size + 4095 < 2 ^ 52) :
    mmioSize physicalAddress size = (size + physicalAddress % 4096 + 4095) / 4096 * 4096 := by
  unfold mmioSize
  rw [word_of_lt (by omega : size + physicalAddress % 4096 < 2 ^ 64), word_of_lt (by omega)]

theorem vmmFlags_small (mmioFlag : MmioFlags) : Vmm.flagBit mmioFlag.vmmFlags 4 = false := by
  cases mmioFlag <;> decide

section Mapping

variable {vma carved : Vma} {shape : Shapes} {chain : List Nat} {chosen size : Nat}
  {goal : SummaryGoal VmRegion Nat}

theorem canonical_of_tree {tree : KTree} {vAddr : Nat} (low : treeStart tree ≤ vAddr)
    (high : vAddr < treeLimit tree) : Vmm.Canonical vAddr := by
  have base : 2 ^ 64 - 2 ^ 47 ≤ treeStart tree := by cases tree <;> decide
  have limit := treeLimit_lt tree
  right
  omega

/-- Growing the slab leaves the tables in order, with frames for the range to be mapped. -/
theorem Supplies.tables (supplies : Supplies vma carved shape chosen size)
    (sound : vma.Sound goal shape chain []) (formed : vma.vmm.WellFormed)
    (small : ∀ address, vma.vmm.hugeAt address = false) {paths : Finset (List (Fin 512))}
    (pathsShort : ∀ path ∈ paths, path.length ≤ 3) (frames : vma.vmm.Supplied paths)
    (slabFrames : vma.GrowsSlab chosen size → ∀ slab ∈ vma.candidate (shape .heap),
      (vma.vmm.missingTables (paths ∪ Vmm.walkPaths (vma.startOf slab + 40))).card + 1 ≤
        (Vmm.freeFrames vma.vmm.pmm).card) :
    carved.vmm.WellFormed ∧ (∀ address, carved.vmm.hugeAt address = false) ∧
      carved.vmm.Supplied paths ∧
      ∀ vAddr, Vmm.Canonical vAddr → carved.vmm.leaf vAddr = vma.vmm.leaf vAddr ∨
        kernelHeapStart ≤ vAddr ∧ vma.InNewSlab carved vAddr := by
  cases supplies with
  | plain sameVmm =>
    rw [sameVmm]
    exact ⟨formed, small, frames, fun _ _ => Or.inl rfl⟩
  | grown slab grows found slabPages faulted paged =>
    obtain ⟨member, free, _⟩ := candidate_free found
    have room := sound.geometry.bounds member
    have address := slab_address sound found
    have enough := slabFrames grows slab found
    have bothShort : ∀ path ∈ paths ∪ Vmm.walkPaths (vma.startOf slab + 40), path.length ≤ 3 := by
      intro path inBoth
      rcases Finset.mem_union.mp inBoth with inRange | inWalk
      · exact pathsShort path inRange
      · exact Vmm.tablesOf_short inWalk
    have notHuge : Vmm.flagBit slabFlags 4 = false := by decide
    have slabSupplied : (vma.vmm.missingTables (Vmm.walkPaths (vma.startOf slab + 40))).card + 1 ≤
        (Vmm.freeFrames vma.vmm.pmm).card := by
      have fewer : (vma.vmm.missingTables (Vmm.walkPaths (vma.startOf slab + 40))).card ≤
          (vma.vmm.missingTables (paths ∪ Vmm.walkPaths (vma.startOf slab + 40))).card :=
        Finset.card_le_card (Finset.filter_subset_filter _ Finset.subset_union_right)
      omega
    obtain ⟨frame, served⟩ := Vmm.page_in formed (small _) faulted notHuge slabSupplied
    have still := Vmm.page_in_supplied formed (small _) notHuge address.2 bothShort
      Finset.subset_union_right enough
    change Vmm.PagedIn vma.vmm (vma.vmm.pageIn (vma.startOf slab + 40) slabFlags) _ _ _ at served
    rw [paged]
    refine ⟨served.formed, ?_, ?_, ?_⟩
    · intro other
      rw [served.sameHuge]
      exact small other
    · have fewer : ((vma.vmm.pageIn (vma.startOf slab + 40) slabFlags).missingTables paths).card ≤
          ((vma.vmm.pageIn (vma.startOf slab + 40) slabFlags).missingTables
            (paths ∪ Vmm.walkPaths (vma.startOf slab + 40))).card :=
        Finset.card_le_card (Finset.filter_subset_filter _ Finset.subset_union_left)
      exact fewer.trans still
    · intro vAddr canonical
      by_cases same : Vmm.page vAddr = Vmm.page (vma.startOf slab + 40)
      · have slabCanonical : Vmm.Canonical (vma.startOf slab + 40) :=
          canonical_of_tree (by omega : treeStart .heap ≤ vma.startOf slab + 40) (by omega)
        have samePage := Vmm.page_injective canonical slabCanonical same
        have aligned := sound.geometry.aligned member
        have base : treeStart .heap = kernelHeapStart := rfl
        refine Or.inr ⟨by omega, vma.startOf slab, ?_, ?_, by omega, by omega⟩
        · rw [slabPages]
          exact mem_cons_self
        · intro old
          obtain ⟨region, inHeap, startIs, _sizeIs, busy⟩ := sound.geometry.slabs _ old
          rw [sound.geometry.eq_of_start inHeap member startIs] at busy
          exact busy free
      · exact Or.inl (served.others vAddr same)

/-- Mapping the range into the region that was cut out is what `kmap_mmio` promises. -/
theorem mmioBacked_mapped {physicalAddress : Nat} {mmioFlag : MmioFlags} (positive : 1 ≤ size)
    (bound : physicalAddress + size + 4095 < 2 ^ 52) (aligned : vma.startOf chosen % 4096 = 0)
    (low : treeStart .mmio ≤ vma.startOf chosen)
    (high : vma.startOf chosen + mmioSize physicalAddress size ≤ treeLimit .mmio)
    (regionIs : carved.region chosen = { vma.region chosen with
      type := .hardwareMmio, flags := mmioFlag.vmmFlags, size := mmioSize physicalAddress size })
    (leaves : ∀ vAddr, Vmm.Canonical vAddr → carved.vmm.leaf vAddr = vma.vmm.leaf vAddr ∨
      kernelHeapStart ≤ vAddr ∧ vma.InNewSlab carved vAddr)
    (mapped : Vmm.MappedRange carved.vmm
      (Vmm.mapPages mmioFlag.vmmFlags (mmioSize physicalAddress size / 4096) (vma.startOf chosen)
        (physicalAddress / 4096 * 4096) carved.vmm).2
      (vma.startOf chosen) (physicalAddress / 4096 * 4096)
      (mmioSize physicalAddress size / 4096) mmioFlag.vmmFlags) :
    MmioMapped vma (carved.mmioBacked chosen physicalAddress size mmioFlag) chosen
      physicalAddress size (word (vma.startOf chosen + physicalAddress % 4096)) := by
  have limit := treeLimit_lt .mmio
  have sizeEq := mmioSize_eq bound
  have startIs : carved.startOf chosen = vma.startOf chosen := by
    unfold startOf
    rw [regionIs]
  have notEmpty : mmioSize physicalAddress size / 4096 ≠ 0 := by omega
  have backed : (carved.mmioBacked chosen physicalAddress size mmioFlag).region chosen =
      { carved.region chosen with backing := { (carved.region chosen).backing with
        first := physicalAddress / 4096 * 4096 } } := by
    change (carved.setRegion chosen _).region chosen = _
    rw [setRegion_region, if_pos rfl]
  have tables : (carved.mmioBacked chosen physicalAddress size mmioFlag).vmm =
      (Vmm.mapPages mmioFlag.vmmFlags (mmioSize physicalAddress size / 4096) (vma.startOf chosen)
        (physicalAddress / 4096 * 4096) carved.vmm).2 := by
    unfold mmioBacked Vmm.vmmMap
    rw [if_neg notEmpty, startIs]
  have startSame : (carved.mmioBacked chosen physicalAddress size mmioFlag).startOf chosen =
      vma.startOf chosen := by
    rw [← startIs]
    unfold startOf
    rw [backed]
  have sizeIs : (carved.mmioBacked chosen physicalAddress size mmioFlag).sizeOf chosen =
      mmioSize physicalAddress size := by
    unfold sizeOf
    rw [backed, regionIs]
  rw [word_of_lt (by omega)]
  constructor
  · omega
  · intro k inRange
    rw [tables, Nat.add_assoc, mapped.translates aligned (by omega) (by omega) (by omega)]
    omega
  · exact startSame
  · exact sizeIs
  · rw [backed, regionIs]
  · intro vAddr canonical changed
    rw [startSame, sizeIs]
    by_cases inside : vma.startOf chosen ≤ vAddr ∧
        vAddr < vma.startOf chosen + mmioSize physicalAddress size
    · exact Or.inl inside
    right
    rw [tables, mapped.outside aligned canonical _ (by omega)] at changed
    · exact ((leaves vAddr canonical).resolve_left changed).2
    · intro offset inRange
      exact canonical_of_tree (by omega : treeStart .mmio ≤ _) (by omega)

end Mapping

/-! ### Two states -/

theorem firstPageTables_small (address : Nat) : firstPageTables.hugeAt address = false :=
  (Vmm.emptyTables_mapped kernelHeapStart 0x5000 slabFlags (by decide) (by decide)
    (by decide)).sameHuge address

theorem firstPageTables_mmio {start size offset : Nat} (low : treeStart .mmio ≤ start)
    (high : start + size ≤ treeLimit .mmio) (inRange : offset < size / 4096) :
    firstPageTables.leaf (start + 4096 * offset) = none := by
  have apart : treeLimit .mmio ≤ kernelHeapStart := by decide
  have heapCanonical : Vmm.Canonical kernelHeapStart := by
    right
    decide
  apply ((Vmm.emptyTables_mapped kernelHeapStart 0x5000 slabFlags (by decide) (by decide)
    (by decide)).outside (by decide) _ _ _).trans rfl
  · exact canonical_of_tree (by omega : treeStart .mmio ≤ _) (by omega)
  · intro other inOne
    obtain rfl : other = 0 := by omega
    exact heapCanonical
  · left
    omega

/-- `kmap_mmio` keeps its promise exactly when the node for the split is at hand. -/
theorem kmapMmio_maps_iff (vma : Vma) (shape : Shapes) (chain : List Nat)
    (goal : VmRegion → Option Nat → Option Nat → Nat → Prop)
    (sound : vma.Sound goal shape chain []) (stocked : minimumAvailableNodes ≤ chain.length)
    (calm : vma.inReplenishCycle = false) (formed : vma.vmm.WellFormed)
    (small : ∀ address, vma.vmm.hugeAt address = false) (physicalAddress size chosen : Nat)
    (mmioFlag : MmioFlags) (positive : 1 ≤ size) (bound : physicalAddress + size + 4095 < 2 ^ 52)
    (found : vma.candidate (shape .mmio) = some chosen)
    (fits : mmioSize physicalAddress size ≤ vma.sizeOf chosen)
    (absent : ∀ offset < vma.sizeOf chosen / 4096,
      vma.vmm.leaf (vma.startOf chosen + 4096 * offset) = none)
    (frames : vma.vmm.Supplied (Vmm.rangePaths (vma.startOf chosen)
      (mmioSize physicalAddress size / 4096)))
    (slabFrames : vma.GrowsSlab chosen (mmioSize physicalAddress size) →
      ∀ slab ∈ vma.candidate (shape .heap),
        (vma.vmm.missingTables (Vmm.rangePaths (vma.startOf chosen)
            (mmioSize physicalAddress size / 4096) ∪
          Vmm.walkPaths (vma.startOf slab + 40))).card + 1 ≤
        (Vmm.freeFrames vma.vmm.pmm).card) :
    (∃ virtual after, kmapMmio physicalAddress size mmioFlag vma = .ok (virtual, after) ∧
      MmioMapped vma after chosen physicalAddress size virtual) ↔
    vma.NodeAtHand shape chosen (mmioSize physicalAddress size) := by
  constructor
  · rintro ⟨virtual, after, run, _mapped⟩
    by_contra missing
    obtain ⟨fault, failed⟩ := carve_not_at_hand sound stocked calm small missing .mmio
      .hardwareMmio mmioFlag.vmmFlags
    rw [kmapMmio_carve sound found, failed] at run
    cases run
  · intro atHand
    obtain ⟨carved, carving, regionIs, supplies⟩ := carve_at_hand sound stocked calm small found
      atHand .hardwareMmio mmioFlag.vmmFlags
    have member := (candidate_free found).1
    have room := sound.geometry.bounds member
    have aligned := sound.geometry.aligned member
    have startIs : carved.startOf chosen = vma.startOf chosen := by
      unfold startOf
      rw [regionIs]
    have base := treeStart_pos .mmio
    have limit := treeLimit_lt .mmio
    have extent := treeLimit_eq .mmio
    have apart : treeLimit .mmio ≤ kernelHeapStart := by decide
    have sizeEq := mmioSize_eq bound
    obtain ⟨carvedFormed, carvedSmall, supplied, leaves⟩ := supplies.tables sound formed small
      (fun path inRange => Vmm.rangePaths_short inRange) frames slabFrames
    have inTree : ∀ offset < mmioSize physicalAddress size / 4096,
        Vmm.Canonical (vma.startOf chosen + 4096 * offset) := by
      intro offset inRange
      exact canonical_of_tree (by omega : treeStart .mmio ≤ _) (by omega)
    have carvedAbsent : ∀ offset < mmioSize physicalAddress size / 4096,
        carved.vmm.leaf (vma.startOf chosen + 4096 * offset) = none := by
      intro offset inRange
      rcases leaves _ (inTree offset inRange) with same | inHeap
      · rw [same]
        exact absent offset (by omega)
      · omega
    have outcome := (Vmm.mapPages_cases mmioFlag.vmmFlags (vmmFlags_small mmioFlag)
      (Vmm.rangePaths (vma.startOf chosen) (mmioSize physicalAddress size / 4096))
      (fun path inRange => Vmm.rangePaths_short inRange) (mmioSize physicalAddress size / 4096)
      (vma.startOf chosen) (physicalAddress / 4096 * 4096) carved.vmm carvedFormed supplied
      (fun offset inRange path inWalk =>
        Finset.mem_biUnion.mpr ⟨offset, Finset.mem_range.mpr inRange, inWalk⟩)
      (fun offset _ => carvedSmall _) (by omega) (by omega) (by omega)).2
    rcases outcome with ⟨_, _, mapped⟩ | ⟨⟨offset, inRange, busy⟩, _⟩
    · refine ⟨word (carved.startOf chosen + physicalAddress % 4096),
        carved.mmioBacked chosen physicalAddress size mmioFlag, ?_, ?_⟩
      · rw [kmapMmio_carve sound found, carving, ok_bind, if_neg (by omega)]
      · rw [startIs]
        exact mmioBacked_mapped positive bound aligned room.1 (by omega) regionIs leaves mapped
    · exact absurd (carvedAbsent offset inRange) busy

/-- The trees of `vma_init` over tables with the slab page; two bytes across a page end. -/
theorem kmapMmio_maps_iff_twoPages : ∃ initial chosen virtual after,
    vmaInit Vmm.emptyTables = .ok initial ∧
    kmapMmio 0x5FFF 2 .default { initial with vmm := firstPageTables } = .ok (virtual, after) ∧
    MmioMapped { initial with vmm := firstPageTables } after chosen 0x5FFF 2 virtual := by
  obtain ⟨vma, shape, chain, started, steady⟩ := vmaInit_steady Vmm.emptyTables
  obtain ⟨initial, same, found, fits, count, frames⟩ :
      ∃ initial, vmaInit Vmm.emptyTables = .ok initial ∧
        initial.candidate (initial.shapes .mmio) = some (kernelHeapStart + 176) ∧
        mmioSize 0x5FFF 2 ≤ initial.sizeOf (kernelHeapStart + 176) ∧
        minimumAvailableNodes < initial.freeNodeCount ∧
        (firstPageTables.missingTables (Vmm.rangePaths (initial.startOf (kernelHeapStart + 176))
          (mmioSize 0x5FFF 2 / 4096))).card ≤ (Vmm.freeFrames firstPageTables.pmm).card :=
    exists_of_checked _ (by decide +kernel)
  rw [started] at same
  cases same
  have shapes := steady.sound.shapes_eq
  rw [shapes] at found
  have sound : ({ vma with vmm := firstPageTables } : Vma).Sound _ shape chain [] :=
    steady.sound.sameNodes rfl
  have room := steady.sound.geometry.bounds (candidate_free found).1
  obtain ⟨virtual, after, run, mapped⟩ := (kmapMmio_maps_iff { vma with vmm := firstPageTables }
    shape chain _ sound steady.stocked steady.calm firstPageTables_wellFormed
    firstPageTables_small 0x5FFF 2 (kernelHeapStart + 176) .default (by decide) (by decide) found fits
    (fun offset inRange => firstPageTables_mmio room.1 room.2.2 inRange) frames
    (fun grows => absurd count (Nat.not_lt.mpr grows.2))).mpr (Or.inr (Or.inl count))
  exact ⟨vma, kernelHeapStart + 176, virtual, after, started, run, mapped⟩

def drained : Vma :=
  { nodes :=
      { parent := fun node => if node = kernelHeapStart + 88 then kernelHeapStart else 0
        left := fun _ => 0
        right := fun node => if node = kernelHeapStart then kernelHeapStart + 88 else 0
        subtreeMaxDepth := fun node => if node = kernelHeapStart then 1 else 0
        update := fun _ => vmAvlUpdateAddress
        data := fun node =>
          if node = kernelHeapStart then ⟨kernelHeapStart, 4096, .regular, slabFlags, ⟨0, 0⟩⟩
          else if node = kernelHeapStart + 88 then
            ⟨kernelHeapStart + 4096, kernelHeapSize - 4096, .regular, slabFlags, ⟨0, 0⟩⟩
          else if node = kernelHeapStart + 176 then
            ⟨kernelMmioStart, kernelMmioSize, .free, 0, ⟨0, 0⟩⟩
          else if node = kernelHeapStart + 616 then ⟨0, 0, .free, 0, ⟨0, 0⟩⟩
          else ⟨node + 88, 0, .free, 0, ⟨0, 0⟩⟩
        summary := fun node => if node = kernelHeapStart + 176 then kernelMmioSize else 0 }
    heapRoot := kernelHeapStart
    mmioRoot := kernelHeapStart + 176
    freeList := kernelHeapStart + 264
    freeNodeCount := 5
    inReplenishCycle := false
    vmm := firstPageTables
    slabPages := [kernelHeapStart] }

def drainedShape : Shapes
  | .heap => node kernelHeapStart nil (node (kernelHeapStart + 88) nil nil)
  | .mmio => node (kernelHeapStart + 176) nil nil

def drainedChain : List Nat :=
  [kernelHeapStart + 264, kernelHeapStart + 352, kernelHeapStart + 440, kernelHeapStart + 528,
    kernelHeapStart + 616]

theorem drained_sound :
    drained.Sound (SummaryExact (fun _ => False)) drainedShape drainedChain [] where
  layout :=
    { linked := fun tree => by cases tree <;> decide +kernel
      rooted := fun tree => by cases tree <;> rfl
      callback := fun _ _ _ => rfl
      chained := by decide +kernel
      counted := rfl
      separate := by decide +kernel
      located := by
        intro node member
        refine ⟨kernelHeapStart, mem_singleton_self _, (node - kernelHeapStart) / 88, ?_⟩
        revert node
        decide +kernel }
  geometry :=
    { tiles := fun tree => by cases tree <;> decide +kernel
      pages := fun tree => by cases tree <;> decide +kernel
      slabs := by
        intro page member
        rw [mem_singleton.mp member]
        exact ⟨kernelHeapStart, by decide +kernel, by decide +kernel⟩ }
  settled := by
    intro tree
    cases tree
    · exact ⟨by decide +kernel, Or.inr (by decide +kernel), trivial, by decide +kernel,
        Or.inr (by decide +kernel), trivial, trivial⟩
    · exact ⟨by decide +kernel, Or.inr (by decide +kernel), trivial, trivial⟩

/-- One page when the slab is low and the heap is full: the call faults. -/
theorem kmapMmio_faults_without_node :
    drained.Sound (SummaryExact (fun _ => False)) drainedShape drainedChain [] ∧
    drained.candidate (drainedShape .mmio) = some (kernelHeapStart + 176) ∧
    mmioSize 0x5000 1 ≤ drained.sizeOf (kernelHeapStart + 176) ∧
    firstPageTables.WellFormed ∧ (∀ address, firstPageTables.hugeAt address = false) ∧
    (∀ offset < drained.sizeOf (kernelHeapStart + 176) / 4096,
      firstPageTables.leaf (drained.startOf (kernelHeapStart + 176) +
        4096 * offset) = none) ∧
    (∀ vAddr, firstPageTables.Supplied (Vmm.walkPaths vAddr)) ∧
    ¬ ∃ virtual after, kmapMmio 0x5000 1 .default drained =
      .ok (virtual, after) := by
  have sound := drained_sound
  have found : drained.candidate (drainedShape .mmio) =
      some (kernelHeapStart + 176) := by decide +kernel
  have room := sound.geometry.bounds (candidate_free found).1
  refine ⟨sound, found, by decide +kernel, firstPageTables_wellFormed, firstPageTables_small,
    fun offset inRange => firstPageTables_mmio room.1 room.2.2 inRange,
    firstPageTables_supplied, ?_⟩
  rintro ⟨virtual, after, run⟩
  have stops : (kmapMmio 0x5000 1 .default drained).toOption.isNone = true := by
    decide +kernel
  rw [run] at stops
  cases stops

end Vma

end Fesos
