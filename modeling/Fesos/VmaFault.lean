/-
Demand paging.

The search of `vma_demand_paging` looks for the region an address lies in.  In a search
tree of disjoint regions its three-way comparison leads to that region, at any offset
inside it.  A served fault takes one frame for the page and the frames of the missing
tables, and changes no other page.
-/

import Fesos.VmaSearch
import Fesos.VmmKept

set_option autoImplicit false

namespace Fesos

open BinaryTree

def VmRegion.Covers (region : VmRegion) (address : Nat) : Prop :=
  region.startAddr ≤ address ∧ address < region.startAddr + region.size

instance VmRegion.decidableCovers (region : VmRegion) (address : Nat) :
    Decidable (region.Covers address) :=
  inferInstanceAs (Decidable (_ ∧ _))

namespace Vma

/-! ### The region of an address -/

/-- The heap tree is a search tree of disjoint regions in the kernel heap range. -/
structure HeapTree (vma : Vma) (shape : BinaryTree Nat) : Prop where
  rooted : vma.heapRoot = rootOf shape
  linked : vma.nodes.Linked 0 shape
  apart : shape.inorder.Pairwise (fun first second =>
    (vma.region first).startAddr + (vma.region first).size ≤ (vma.region second).startAddr)
  inHeap : ∀ node ∈ shape.inorder, kernelHeapStart ≤ (vma.region node).startAddr ∧
    (vma.region node).startAddr + (vma.region node).size ≤ kernelHeapLimit

theorem kernelHeapLimit_lt : kernelHeapLimit < 2 ^ 64 := by decide

theorem userLimit_lt_heap : 0x00007FFFFFFFFFFF < kernelHeapStart := by decide

section Search

variable {vma : Vma} {shape : BinaryTree Nat} {address : Nat}

theorem vmAvlCompAddrSpace_eq_zero_iff {region : VmRegion}
    (bounded : region.startAddr + region.size ≤ kernelHeapLimit) :
    vmAvlCompAddrSpace address region = 0 ↔ region.Covers address := by
  have noWrap : word (region.startAddr + region.size) = region.startAddr + region.size :=
    word_of_lt (Nat.lt_of_le_of_lt bounded kernelHeapLimit_lt)
  unfold vmAvlCompAddrSpace VmRegion.Covers
  rw [noWrap]
  split
  · rename_i inside
    exact iff_of_true rfl inside
  rename_i outside
  split
  · exact iff_of_false (by decide) outside
  · exact iff_of_false (by decide) outside

theorem vmAvlCompAddrSpace_above {region : VmRegion} (above : address < region.startAddr) :
    0 < vmAvlCompAddrSpace address region := by
  unfold vmAvlCompAddrSpace
  rw [if_neg (fun inside => Nat.not_le_of_lt above inside.1), if_pos above]
  decide

theorem vmAvlCompAddrSpace_below {region : VmRegion}
    (bounded : region.startAddr + region.size ≤ kernelHeapLimit)
    (below : region.startAddr + region.size ≤ address) :
    vmAvlCompAddrSpace address region < 0 := by
  have noWrap : word (region.startAddr + region.size) = region.startAddr + region.size :=
    word_of_lt (Nat.lt_of_le_of_lt bounded kernelHeapLimit_lt)
  unfold vmAvlCompAddrSpace
  rw [noWrap, if_neg (fun inside => Nat.not_le_of_lt inside.2 below), if_neg (by omega)]
  decide

/-- The search leads to the region the address lies in, if there is one. -/
theorem HeapTree.search_iff (heap : vma.HeapTree shape) (node : Nat) :
    shape.search (fun node => vmAvlCompAddrSpace address (vma.region node)) = some node ↔
      node ∈ shape.inorder ∧ (vma.region node).Covers address := by
  constructor
  · intro found
    have hit := search_some found
    exact ⟨hit.1, (vmAvlCompAddrSpace_eq_zero_iff (heap.inHeap node hit.1).2).mp hit.2⟩
  · intro covered
    obtain ⟨front, back, order⟩ := List.append_of_mem covered.1
    have apart := heap.apart
    rw [order, List.pairwise_append, List.pairwise_cons] at apart
    have hit := (vmAvlCompAddrSpace_eq_zero_iff (heap.inHeap node covered.1).2).mpr covered.2
    apply search_found (fun node => vmAvlCompAddrSpace address (vma.region node)) hit shape order
    · intro other inFront
      have member : other ∈ shape.inorder := by
        rw [order]
        exact List.mem_append_left _ inFront
      have before := apart.2.2 other inFront node List.mem_cons_self
      exact vmAvlCompAddrSpace_below (heap.inHeap other member).2 (before.trans covered.2.1)
    · intro other inBack
      have behind := apart.2.1.1 other inBack
      exact vmAvlCompAddrSpace_above (Nat.lt_of_lt_of_le covered.2.2 behind)

end Search

/-! ### Serving a fault -/

def serveFault (faultAddr node : Nat) (vma : Vma) : Nat × Vma :=
  if node = 0 then (1, vma)
  else if (vma.region node).type ≠ .regular then (1, vma)
  else
    let allocated := vma.vmm.pmm.pmmAllocateFrames 1 4096
    let supplied : Vmm := { vma.vmm with pmm := allocated.2 }
    (0, { vma with
      vmm := (supplied.vmmMap faultAddr allocated.1 1 (vma.region node).flags).2 })

def nodeForAddressWithin (fuel faultAddr : Nat) (vma : Vma) : Except Fault Nat :=
  if faultAddr ≤ 0x00007FFFFFFFFFFF then .ok 0
  else
    AvlStore.avlGetNode (fun store node => vmAvlCompAddrSpace faultAddr (store.data node))
      fuel vma.heapRoot vma.nodes

def demandPagingWithin (fuel faultAddr : Nat) (vma : Vma) : Except Fault (Nat × Vma) := do
  let node ← nodeForAddressWithin fuel faultAddr vma
  pure (serveFault faultAddr node vma)

theorem vmaDemandPaging_within (faultAddr : Nat) (vma : Vma) :
    vmaDemandPaging faultAddr vma = demandPagingWithin treeFuel faultAddr vma := by
  unfold vmaDemandPaging demandPagingWithin
  apply bind_congr
  intro node
  unfold serveFault
  by_cases nowhere : node = 0
  · rw [if_pos nowhere, if_pos nowhere]
  rw [if_neg nowhere, if_neg nowhere]
  by_cases irregular : (vma.region node).type ≠ .regular
  · rw [if_pos irregular, if_pos irregular]
  · rw [if_neg irregular, if_neg irregular]

/-- The search of a fault ends at the region of the address, or at NULL without one. -/
theorem HeapTree.demandPaging_eq {vma : Vma} {shape : BinaryTree Nat} {fuel : Nat}
    (heap : vma.HeapTree shape) (enough : shape.height < fuel) (faultAddr : Nat) :
    (∃ node ∈ shape.inorder, (vma.region node).Covers faultAddr ∧
        demandPagingWithin fuel faultAddr vma = .ok (serveFault faultAddr node vma)) ∨
      (∀ node ∈ shape.inorder, ¬ (vma.region node).Covers faultAddr) ∧
        demandPagingWithin fuel faultAddr vma = .ok (1, vma) := by
  unfold demandPagingWithin nodeForAddressWithin
  by_cases user : faultAddr ≤ 0x00007FFFFFFFFFFF
  · rw [if_pos user]
    apply Or.inr
    constructor
    · intro node member covered
      have lower := (heap.inHeap node member).1
      have limit := userLimit_lt_heap
      have inside := covered.1
      omega
    · rfl
  · rw [if_neg user, heap.rooted, AvlStore.avlGetNode_search _ heap.linked enough]
    cases found : shape.search (fun node => vmAvlCompAddrSpace faultAddr (vma.nodes.data node)) with
    | some node =>
      have covered := heap.search_iff node |>.mp found
      exact Or.inl ⟨node, covered.1, covered.2, rfl⟩
    | none =>
      apply Or.inr
      constructor
      · intro node member covered
        have there := heap.search_iff node |>.mpr ⟨member, covered⟩
        change shape.search (fun node => vmAvlCompAddrSpace faultAddr (vma.nodes.data node)) =
          some node at there
        rw [found] at there
        cases there
      · rfl

end Vma

namespace Vmm

/-! ### Frames that hold no table -/

def Foreign (vmm : Vmm) (frame : Nat) : Prop :=
  frame ∉ freeFrames vmm.pmm ∧
    ∀ path table, path.length ≤ 3 → vmm.tableAt path = some table → table ≠ frame

section Foreign

variable {vmm : Vmm} {path : List (Fin 512)} {table frame : Nat} {index : Fin 512}

theorem walk_foreign (formed : vmm.WellFormed) (short : path.length ≤ 2)
    (here : vmm.tableAt path = some table)
    (fed : (vmm.entry table index).present = false → freeFrames vmm.pmm ≠ ∅)
    (foreign : vmm.Foreign frame) :
    (vmm.vmmWalkAndCrateNextTable table index).2.Foreign frame ∧
      ∀ position, (vmm.vmmWalkAndCrateNextTable table index).2.entry frame position =
        vmm.entry frame position := by
  have apart : frame ≠ table := Ne.symm (foreign.2 path table (by omega) here)
  have kept := walk_kept vmm table index
  have step := walk_outcome vmm table index
  generalize vmm.vmmWalkAndCrateNextTable table index = result at step kept
  cases step with
  | follow present => exact ⟨foreign, fun _ => rfl⟩
  | create new absent free least =>
    have created := withTable_created formed short here absent free
    have other : frame ≠ new := fun same => foreign.1 (same ▸ free)
    constructor
    · constructor
      · exact fun stillFree => foreign.1 (kept.free stillFree)
      · intro otherPath otherTable otherShort atOther
        rw [created.tableAt formed.shaped otherPath otherShort] at atOther
        split at atOther
        · cases atOther
          exact Ne.symm other
        · exact foreign.2 otherPath otherTable otherShort atOther
    · intro position
      rw [created.entries, if_neg (fun both => apart both.1), if_neg other]
  | starve absent empty => exact absurd empty (fed absent)

theorem walkTo_foreign {paths : Finset (List (Fin 512))} (path : List (Fin 512))
    (short : path.length ≤ 3) (formed : vmm.WellFormed)
    (small : ∀ entry, vmm.slot path = some entry → entry.hugePage = false)
    (pathsShort : ∀ other ∈ paths, other.length ≤ 3) (covered : tablesOf path ⊆ paths)
    (supplied : vmm.Supplied paths) (foreign : vmm.Foreign frame) :
    (vmm.walkTo path).2.Foreign frame ∧
      ∀ position, (vmm.walkTo path).2.entry frame position = vmm.entry frame position := by
  induction path with
  | nil => exact ⟨foreign, fun _ => rfl⟩
  | cons index parent ih =>
    have parentShort : parent.length ≤ 2 := Nat.le_of_succ_le_succ short
    have member : index :: parent ∈ paths := covered (Finset.mem_insert_self _ _)
    have above : tablesOf parent ⊆ paths :=
      fun other inParent => covered (Finset.mem_insert_of_mem inParent)
    have parentSmall : ∀ entry, vmm.slot parent = some entry → entry.hugePage = false :=
      fun entry held => slot_high formed.shaped parentShort held
    have before := ih (by omega) parentSmall above
    obtain ⟨walked, still, atParent⟩ := walkTo_reaches parent (by omega) formed parentSmall
      pathsShort above supplied
    have after := walk_foreign walked.formed parentShort atParent (still.fed atParent member)
      before.1
    exact ⟨after.1, fun position => (after.2 position).trans (before.2 position)⟩

end Foreign

structure PagedIn (before after : Vmm) (vAddr flags frame : Nat) : Prop where
  free : frame ∈ freeFrames before.pmm
  used : after.pmm.used frame = true
  zeroed : ∀ index, after.entry frame index = PageTableEntry.zero
  formed : after.WellFormed
  mapped : after.leaf vAddr = some (requestedLeaf frame flags)
  others : ∀ other, page other ≠ page vAddr → after.leaf other = before.leaf other
  sameHuge : ∀ other, after.hugeAt other = before.hugeAt other

theorem Foreign.claimed {vmm : Vmm} {frame : Nat} (formed : vmm.WellFormed)
    (free : frame ∈ freeFrames vmm.pmm) : (vmm.claimed frame).Foreign frame := by
  have fewer : freeFrames (vmm.claimed frame).pmm = (freeFrames vmm.pmm).erase frame :=
    freeFrames_claim vmm.pmm frame
  constructor
  · rw [fewer]
    exact Finset.notMem_erase _ _
  · intro path table short here
    rw [claimed_tableAt formed free path short] at here
    exact frame_ne_table formed free short here

theorem claimed_zero {vmm : Vmm} {frame : Nat} (free : frame ∈ freeFrames vmm.pmm)
    (index : Fin 512) : (vmm.claimed frame).entry frame index = PageTableEntry.zero := by
  have inside : frame ≤ frame ∧ frame < frame + 1 := ⟨Nat.le_refl _, Nat.lt_succ_self _⟩
  unfold Vmm.claimed entry
  rw [PmmOf.claim_ram _ _ _ _ (freeFrames_addressable free), if_pos inside]

/-- Asking for a frame and mapping an absent page to it. -/
theorem page_in_frame {vmm : Vmm} {vAddr flags : Nat} (formed : vmm.WellFormed)
    (small : vmm.hugeAt vAddr = false) (absent : vmm.leaf vAddr = none)
    (notHuge : flagBit flags 4 = false)
    (supplied : (vmm.missingTables (walkPaths vAddr)).card + 1 ≤ (freeFrames vmm.pmm).card) :
    ∃ frame, (vmm.pmm.pmmAllocateFrames 1 4096).1 = frame * 4096 ∧
      PagedIn vmm (Vmm.vmmMap { vmm with pmm := (vmm.pmm.pmmAllocateFrames 1 4096).2 } vAddr
        (vmm.pmm.pmmAllocateFrames 1 4096).1 1 flags).2 vAddr flags frame := by
  rcases allocate_one_cases vmm.pmm with ⟨frame, free, _least, allocated⟩ | ⟨empty, _refused⟩
  · have pathsShort : ∀ path ∈ walkPaths vAddr, path.length ≤ 3 :=
      fun path member => tablesOf_short member
    have claimedFormed := claimed_wellFormed formed free
    have claimedSmall := (claimed_hugeAt formed free vAddr).trans small
    have foreign := Foreign.claimed formed free
    have claimedLeaf : ∀ other, (vmm.claimed frame).leaf other = vmm.leaf other :=
      fun other => claimed_slot formed free _ (by simp [ptPath])
    have claimedSupplied : (vmm.claimed frame).Supplied (walkPaths vAddr) := by
      have fewer : freeFrames (vmm.claimed frame).pmm = (freeFrames vmm.pmm).erase frame :=
        freeFrames_claim vmm.pmm frame
      unfold Supplied
      rw [claimed_missing formed free pathsShort, fewer, Finset.card_erase_of_mem free]
      omega
    obtain ⟨walked, _still, atPt⟩ := walkToPt_reaches claimedFormed claimedSupplied pathsShort
      (Finset.Subset.refl _) claimedSmall
    have untouched := walkTo_foreign (ptPath vAddr) (ptPath_short vAddr) claimedFormed
      (fun entry held => slot_of_not_huge claimedSmall held) pathsShort (Finset.Subset.refl _)
      claimedSupplied foreign
    have absentEntry : (((vmm.claimed frame).walkToPt vAddr).2.entry
        ((vmm.claimed frame).walkToPt vAddr).1 (ptIndex vAddr)).present = false := by
      by_contra present
      have held := leaf_at_pt walked atPt
      rw [if_pos (Bool.not_eq_false _ ▸ present), claimedLeaf, absent] at held
      cases held
    have inBitmap := (mem_freeFrames.mp free).1
    have frames := vmm.pmm.framesBound
    have zero := walked.formed.absentZero _ _ (ptIndex vAddr) (ptPath_short vAddr) atPt absentEntry
    have entry := smallLeaf_zero (frame * 4096) flags (by omega)
    rw [Nat.mul_div_cancel _ (by decide)] at entry
    have stored := store_at_pt walked atPt (requestedLeaf frame flags) (Or.inl rfl)
    have isStored : (Vmm.vmmMap { vmm with pmm := (vmm.pmm.pmmAllocateFrames 1 4096).2 } vAddr
        (vmm.pmm.pmmAllocateFrames 1 4096).1 1 flags).2 =
        ((vmm.claimed frame).walkToPt vAddr).2.storeEntry ((vmm.claimed frame).walkToPt vAddr).1
          (ptIndex vAddr) (requestedLeaf frame flags) := by
      rw [allocated]
      change (mapPages flags (0 + 1) vAddr (frame * 4096) (vmm.claimed frame)).2 = _
      rw [mapPages_absent notHuge absentEntry, zero, entry]
      rfl
    rw [isStored]
    refine ⟨frame, congrArg Prod.fst allocated,
      { free := free
        used := ?_
        zeroed := ?_
        formed := stored.formed
        mapped := ?_
        others := ?_
        sameHuge := ?_ }⟩
    · have kept := (walkTo_kept (vmm.claimed frame) (ptPath vAddr))
      by_contra unused
      apply foreign.1
      apply kept.free
      rw [mem_freeFrames]
      exact ⟨by rw [kept.size]; exact inBitmap, Bool.eq_false_iff.mpr unused⟩
    · intro index
      have apart : frame ≠ ((vmm.claimed frame).walkToPt vAddr).1 :=
        Ne.symm (untouched.1.2 (ptPath vAddr) _ (ptPath_short vAddr) atPt)
      rw [storeEntry_entry, if_neg (fun both => apart both.1)]
      exact (untouched.2 index).trans (claimed_zero free index)
    · rw [stored.leaves, if_pos rfl]
      rfl
    · intro other different
      rw [stored.leaves, if_neg different, claimedLeaf]
    · intro other
      rw [stored.sameHuge, claimed_hugeAt formed free]
  · rw [empty, Finset.card_empty] at supplied
    exact absurd supplied (Nat.not_succ_le_zero _)

theorem page_in {vmm : Vmm} {vAddr flags : Nat} (formed : vmm.WellFormed)
    (small : vmm.hugeAt vAddr = false) (absent : vmm.leaf vAddr = none)
    (notHuge : flagBit flags 4 = false)
    (supplied : (vmm.missingTables (walkPaths vAddr)).card + 1 ≤ (freeFrames vmm.pmm).card) :
    ∃ frame, PagedIn vmm (Vmm.vmmMap { vmm with pmm := (vmm.pmm.pmmAllocateFrames 1 4096).2 } vAddr
      (vmm.pmm.pmmAllocateFrames 1 4096).1 1 flags).2 vAddr flags frame := by
  obtain ⟨frame, _taken, paged⟩ := page_in_frame formed small absent notHuge supplied
  exact ⟨frame, paged⟩

end Vmm

namespace Vma

theorem serveFault_regular {faultAddr node : Nat} {vma : Vma} (present : node ≠ 0)
    (regular : (vma.region node).type = .regular) :
    serveFault faultAddr node vma = (0, { vma with
      vmm := (Vmm.vmmMap { vma.vmm with pmm := (vma.vmm.pmm.pmmAllocateFrames 1 4096).2 } faultAddr
        (vma.vmm.pmm.pmmAllocateFrames 1 4096).1 1 (vma.region node).flags).2 }) := by
  unfold serveFault
  rw [if_neg present, if_neg (not_not.mpr regular)]

theorem serveFault_irregular {faultAddr node : Nat} {vma : Vma}
    (irregular : (vma.region node).type ≠ .regular) : serveFault faultAddr node vma = (1, vma) := by
  unfold serveFault
  rw [if_pos irregular]
  split <;> rfl

def Pageable (vma : Vma) (shape : BinaryTree Nat) (address : Nat) : Prop :=
  ∃ node ∈ shape.inorder, (vma.region node).type = .regular ∧ (vma.region node).Covers address

instance (vma : Vma) (shape : BinaryTree Nat) (address : Nat) :
    Decidable (vma.Pageable shape address) :=
  inferInstanceAs (Decidable (∃ node ∈ shape.inorder, _))

/-- `vma_demand_paging` serves exactly the addresses inside regular heap regions: their
page is mapped to a zeroed frame that was free, with the flags of the region, and no other
page changes.  All other addresses leave everything as it is.  The recursion of the search
ends within any bound above the height of the tree. -/
theorem vmaDemandPaging_serves (vma : Vma) (shape : BinaryTree Nat) (fuel faultAddr : Nat)
    (heap : vma.HeapTree shape) (enough : shape.height < fuel)
    (pageFlags : ∀ node ∈ shape.inorder, Vmm.flagBit (vma.region node).flags 4 = false)
    (formed : vma.vmm.WellFormed) (small : ∀ address, vma.vmm.hugeAt address = false)
    (absent : vma.vmm.leaf faultAddr = none)
    (supplied : vma.Pageable shape faultAddr →
      (vma.vmm.missingTables (Vmm.walkPaths faultAddr)).card + 1 ≤
        (Vmm.freeFrames vma.vmm.pmm).card) :
    ∃ result after, demandPagingWithin fuel faultAddr vma = .ok (result, after) ∧
      (result = 0 ↔ vma.Pageable shape faultAddr) ∧
      (result = 0 → ∃ node ∈ shape.inorder, (vma.region node).type = .regular ∧
        (vma.region node).Covers faultAddr ∧
        (∃ frame, Vmm.PagedIn vma.vmm after.vmm faultAddr (vma.region node).flags frame) ∧
        after = { vma with vmm := after.vmm }) ∧
      (result ≠ 0 → result = 1 ∧ after = vma) := by
  rcases heap.demandPaging_eq enough faultAddr with ⟨node, member, covered, run⟩ | ⟨nowhere, run⟩
  · by_cases regular : (vma.region node).type = .regular
    · have pageable : vma.Pageable shape faultAddr := ⟨node, member, regular, covered⟩
      have served := Vmm.page_in formed (small faultAddr) absent (pageFlags node member)
        (supplied pageable)
      rw [serveFault_regular (heap.linked.ne_zero member) regular] at run
      refine ⟨0, _, run, ⟨fun _ => pageable, fun _ => rfl⟩, ?_, fun wrong => absurd rfl wrong⟩
      intro _zero
      exact ⟨node, member, regular, covered, served, rfl⟩
    · rw [serveFault_irregular regular] at run
      have notPageable : ¬ vma.Pageable shape faultAddr := by
        rintro ⟨other, otherMember, otherRegular, otherCovered⟩
        have found := (heap.search_iff other).mpr ⟨otherMember, otherCovered⟩
        rw [(heap.search_iff node).mpr ⟨member, covered⟩] at found
        cases found
        exact regular otherRegular
      refine ⟨1, vma, run, ⟨fun wrong => absurd wrong (by decide), fun pageable =>
        absurd pageable notPageable⟩, fun wrong => absurd wrong (by decide), fun _ => ⟨rfl, rfl⟩⟩
  · have notPageable : ¬ vma.Pageable shape faultAddr := by
      rintro ⟨node, member, _regular, covered⟩
      exact nowhere node member covered
    refine ⟨1, vma, run, ⟨fun wrong => absurd wrong (by decide), fun pageable =>
      absurd pageable notPageable⟩, fun wrong => absurd wrong (by decide), fun _ => ⟨rfl, rfl⟩⟩

theorem onePageHeap_heapTree (vmm : Vmm) : (Vmm.onePageHeap vmm).HeapTree (node 1 nil nil) where
  rooted := rfl
  linked := ⟨Nat.one_ne_zero, rfl, rfl, rfl, trivial, trivial⟩
  apart := List.pairwise_singleton _ _
  inHeap := by
    intro node _member
    exact (by decide : kernelHeapStart ≤ kernelHeapStart ∧ kernelHeapStart + 4096 ≤ kernelHeapLimit)

/-- The last byte of a region. -/
theorem vmaDemandPaging_serves_emptyTables :
    ∃ after frame, vmaDemandPaging (kernelHeapStart + 0xFFF) (Vmm.onePageHeap Vmm.emptyTables) =
        .ok (0, after) ∧
      Vmm.PagedIn Vmm.emptyTables after.vmm (kernelHeapStart + 0xFFF) slabFlags frame := by
  have enough : (Vmm.emptyTables.missingTables (Vmm.walkPaths (kernelHeapStart + 0xFFF))).card + 1 ≤
      (Vmm.freeFrames Vmm.emptyTables.pmm).card :=
    Nat.le_trans (Nat.succ_le_succ (Finset.card_filter_le _ _)) (by decide)
  have notHuge : Vmm.flagBit slabFlags 4 = false := by decide
  obtain ⟨result, after, run, zero, served, _refused⟩ :=
    vmaDemandPaging_serves (Vmm.onePageHeap Vmm.emptyTables) (node 1 nil nil) treeFuel
      (kernelHeapStart + 0xFFF) (onePageHeap_heapTree _) (by decide) (fun _ _ => notHuge)
      Vmm.emptyTables_wellFormed (fun _ => rfl) rfl (fun _ => enough)
  have isZero : result = 0 := zero.mpr ⟨1, by decide, rfl, by decide⟩
  obtain ⟨_node, _member, _regular, _covered, ⟨frame, paged⟩, _same⟩ := served isZero
  rw [isZero, ← vmaDemandPaging_within] at run
  exact ⟨after, frame, run, paged⟩

end Vma

end Fesos
