/-
Where the node for a split comes from.

A node is taken off the free list; when fewer than `MINIMUM_AVAILABLE_NODES` stay,
the slab is grown by a page of the heap before the call goes on.  Growing it fails
when the heap has no FREE region, and when the first store into the new page faults
and the search for the faulting address does not find its region.
-/

import Fesos.VmaGrant
import Fesos.VmaFault

set_option autoImplicit false

namespace Fesos

open BinaryTree Library List Function

/-- The tables after a fault was served: a frame is asked for and mapped. -/
def Vmm.pageIn (vmm : Vmm) (vAddr flags : Nat) : Vmm :=
  (Vmm.vmmMap { vmm with pmm := (vmm.pmm.pmmAllocateFrames 1 4096).2 } vAddr
    (vmm.pmm.pmmAllocateFrames 1 4096).1 1 flags).2

namespace Vma

/-! ### The first access to a page -/

def FaultsAt (regions : Nat → VmRegion) (shape : BinaryTree Nat) (address node : Nat) : Prop :=
  shape.Reached (fun other => vmAvlCompAddrSpace address (regions other)) node ∧
    vmAvlCompAddrSpace address (regions node) = 0 ∧ (regions node).type = .regular

instance (regions : Nat → VmRegion) (shape : BinaryTree Nat) (address node : Nat) :
    Decidable (FaultsAt regions shape address node) :=
  inferInstanceAs (Decidable (_ ∧ _ ∧ _))

section Touch

variable {vma : Vma} {shape : Shapes} {address node : Nat}

theorem touch_present (present : vma.vmm.leaf address ≠ none) : touch address vma = .ok vma := by
  unfold touch
  rw [if_pos]
  rw [Bool.or_eq_true]
  exact Or.inr (Option.isSome_iff_ne_none.mpr present)

section

variable (trees : vma.KernelTrees shape) (kernel : 0x00007FFFFFFFFFFF < address)
  (small : vma.vmm.hugeAt address = false) (absent : vma.vmm.leaf address = none)

include trees kernel small absent

theorem KernelTrees.touch_absent :
    touch address vma =
      (let served := serveFault address (((shape .heap).search (fun other =>
          vmAvlCompAddrSpace address (vma.region other))).getD 0) vma
        if served.1 = 0 then .ok served.2 else .error (.pageFault address)) := by
  have rooted : vma.heapRoot = rootOf (shape .heap) := trees.rooted .heap
  unfold touch
  rw [small, absent, if_neg (by decide), vmaDemandPaging_within]
  unfold demandPagingWithin nodeForAddressWithin
  rw [if_neg (Nat.not_le_of_lt kernel), rooted,
    AvlStore.avlGetNode_search _ (trees.linked .heap) (trees.short .heap)]
  rfl

theorem KernelTrees.touch_served
    (faults : FaultsAt vma.region (shape .heap) address node) :
    touch address vma =
      .ok { vma with vmm := vma.vmm.pageIn address (vma.region node).flags } := by
  have found := search_eq_some_iff.mpr ⟨faults.1, faults.2.1⟩
  have present := (trees.linked .heap).ne_zero (search_some found).1
  rw [trees.touch_absent kernel small absent, found, Option.getD_some,
    serveFault_regular present faults.2.2]
  exact if_pos rfl

theorem KernelTrees.touch_refused
    (nowhere : ∀ node ∈ (shape .heap).inorder, ¬ FaultsAt vma.region (shape .heap) address node) :
    touch address vma = .error (.pageFault address) := by
  rw [trees.touch_absent kernel small absent]
  cases found : (shape .heap).search (fun other => vmAvlCompAddrSpace address (vma.region other)) with
  | none => rfl
  | some node =>
    have hit := search_eq_some_iff.mp found
    have irregular : (vma.region node).type ≠ .regular :=
      fun regular => nowhere node (search_some found).1 ⟨hit.1, hit.2, regular⟩
    rw [Option.getD_some, serveFault_irregular irregular]
    rfl

end

end Touch

/-! ### Growing the slab -/

/-- The heap has a region for another slab page, and the first store into that page does
not fail. -/
def CanReplenish (vma : Vma) (shape : Shapes) : Prop :=
  ∃ node ∈ vma.candidate (shape .heap), vma.vmm.leaf (vma.startOf node + 40) ≠ none ∨
    ∃ found ∈ (vma.grantTree (shape .heap) vma.freeList node 4096).inorder,
      FaultsAt (vma.grantRegion vma.freeList node 4096 .regular slabFlags)
        (vma.grantTree (shape .heap) vma.freeList node 4096) (vma.startOf node + 40) found

section Replenish

variable {vma : Vma} {shape : Shapes} {chain loose : List Nat} {second node : Nat}
  {goal : SummaryGoal VmRegion Nat}

theorem replenish_none (sound : vma.Sound goal shape chain loose)
    (none : vma.candidate (shape .heap) = none) :
    replenishSlabFromTree vma = .error .nullDereference := by
  rw [replenish_eq]
  unfold vmaAllocateMemoryFromTreeWith
  rw [if_neg (by decide), worstFit_candidate sound, none]
  rfl

structure SlabGranted (vma granting : Vma) (shape : Shapes) (chain loose : List Nat)
    (second node : Nat) : Prop where
  wired : granting.Wired
    (Function.update shape .heap (vma.grantTree (shape .heap) second node 4096))
    (vma.grantChain second node 4096 chain) loose
  regions : ∀ other, granting.region other =
    vma.grantRegion second node 4096 .regular slabFlags other
  vmm : granting.vmm = vma.vmm
  slabPages : granting.slabPages = vma.slabPages
  inReplenishCycle : granting.inReplenishCycle = vma.inReplenishCycle
  spares : vma.Spares granting (shape .mmio)

theorem replenish_some (sound : vma.Sound goal shape (second :: chain) loose)
    (found : vma.candidate (shape .heap) = some node) :
    ∃ granting, SlabGranted vma granting shape chain loose second node ∧
      replenishSlabFromTree vma = touch (vma.startOf node + 40) granting >>= fun touched =>
        .ok (touched.threaded (vma.startOf node) (nodesPerPage - 1)) := by
  have member := (candidate_free found).1
  have nonzero := sound.layout.head_ne_zero
  have nodeNonzero := (sound.layout.linked .heap).ne_zero member
  have few := sound.layout.chain_few sound.geometry
  have short := sound.geometry.short .heap
  have different := sound.layout.ne_head member
  obtain ⟨granting, carved, wired, regions, vmm, slabs, flag, spares⟩ :=
    sound.wired.carve_taken nonzero (by omega) (by omega) member
      (fun _ => (takeNode_sound sound).1) .regular slabFlags
  have startIs : (granting.region node).startAddr = vma.startOf node := by
    rw [regions, grantRegion_node nonzero different]
    rfl
  have startNonzero : vma.startOf node ≠ 0 := by
    have low := (sound.geometry.bounds member).1
    have base := treeStart_pos .heap
    omega
  refine ⟨granting, ⟨wired, regions, vmm, slabs, flag, spares .mmio KTree.noConfusion⟩, ?_⟩
  rw [replenish_eq]
  unfold vmaAllocateMemoryFromTreeWith
  rw [if_neg (by decide), worstFit_candidate sound, found, ok_bind, Option.getD_some,
    if_neg nodeNonzero, carved, ok_bind]
  change (if (granting.region node).startAddr = 0 then _ else _) = _
  rw [startIs, if_neg startNonzero]
  rfl

theorem grantChain_length (vma : Vma) (new node size : Nat) (chain : List Nat) :
    (vma.grantChain new node size chain).length ≤ chain.length + 1 := by
  unfold grantChain
  split
  · exact Nat.le_refl _
  · exact Nat.le_succ _

/-- The nodes of the new page join the free list, and no node of a tree is written. -/
theorem SlabGranted.threaded {granting : Vma} (sound : vma.Sound goal shape (second :: chain) loose)
    (found : vma.candidate (shape .heap) = some node)
    (granted : SlabGranted vma granting shape chain loose second node) (vmm : Vmm) :
    (({ granting with vmm := vmm } : Vma).threaded (vma.startOf node) (nodesPerPage - 1)).Wired
        (Function.update shape .heap (vma.grantTree (shape .heap) second node 4096))
        (pageNodes (vma.startOf node) nodesPerPage ++ vma.grantChain second node 4096 chain) loose ∧
      ∀ owner, granting.Spares
        (({ granting with vmm := vmm } : Vma).threaded (vma.startOf node) (nodesPerPage - 1))
        (Function.update shape .heap (vma.grantTree (shape .heap) second node 4096) owner) := by
  obtain ⟨member, free, _⟩ := candidate_free found
  have room := sound.geometry.bounds member
  have base := treeStart_pos .heap
  have few := sound.layout.chain_few sound.geometry
  rw [length_cons] at few
  have newFew := vma.grantChain_length second node 4096 chain
  have perPage : nodesPerPage = 46 := rfl
  have wired : ({ granting with vmm := vmm } : Vma).Wired
      (Function.update shape .heap (vma.grantTree (shape .heap) second node 4096))
      (vma.grantChain second node 4096 chain) loose :=
    granted.wired.sameNodes rfl
  have fresh : ∀ other ∈ pageNodes (vma.startOf node) (nodesPerPage - 1 + 1), other ∉ nodesOf
      (Function.update shape .heap (vma.grantTree (shape .heap) second node 4096))
      (vma.grantChain second node 4096 chain) loose := by
    intro other inside listed
    obtain ⟨index, small, is⟩ := mem_pageNodes.mp inside
    have located := granted.wired.layout.located other listed
    unfold InSlab at located
    rw [granted.slabPages] at located
    apply sound.geometry.node_not_free located member free
    omega
  have same := ({ granting with vmm := vmm } : Vma).threaded_elsewhere (vma.startOf node)
    (nodesPerPage - 1)
  have apart : ∀ owner, ∀ other ∈ (Function.update shape .heap
      (vma.grantTree (shape .heap) second node 4096) owner).inorder,
      other ∉ pageNodes (vma.startOf node) (nodesPerPage - 1 + 1) :=
    fun owner other inTree inside => fresh other inside (mem_nodesOf.mpr (Or.inl ⟨owner, inTree⟩))
  constructor
  · constructor
    · exact threaded_layout wired.layout (by omega) fresh (by omega) rfl
    · exact fun owner => same.settled (apart owner) (wired.depths owner)
  · exact fun owner => Spares.of_outside same (apart owner)

/-- The only region that serves a fault in the new page is the new page. -/
theorem SlabGranted.fault_slab {granting : Vma} {found : Nat}
    (sound : vma.Sound goal shape (second :: chain) loose)
    (chosen : vma.candidate (shape .heap) = some node)
    (granted : SlabGranted vma granting shape chain loose second node)
    (inTree : found ∈ (vma.grantTree (shape .heap) second node 4096).inorder)
    (faults : FaultsAt granting.region (vma.grantTree (shape .heap) second node 4096)
      (vma.startOf node + 40) found) : found = node := by
  have member := (candidate_free chosen).1
  have nonzero := sound.layout.head_ne_zero
  have different := sound.layout.ne_head member
  obtain ⟨_, hit, regular⟩ := faults
  by_contra elsewhere
  rw [granted.regions] at hit regular
  by_cases isSecond : found = second
  · unfold grantTree at inTree
    unfold grantRegion at regular
    split at inTree
    · exact sound.layout.not_chain inTree (isSecond ▸ mem_cons_self)
    rename_i inexact
    rw [if_neg inexact, cut_region _ nonzero different, if_neg elsewhere, if_pos isSecond]
      at regular
    cases regular
  · rw [grantRegion_other nonzero different elsewhere isSecond] at hit
    have inBefore : found ∈ (shape .heap).inorder := by
      unfold grantTree at inTree
      split at inTree
      · exact inTree
      · exact (mem_cons.mp ((splitTree_perm _ _ _ _ _).mem_iff.mp inTree)).resolve_left
          isSecond
    have foundRoom := sound.geometry.bounds inBefore
    have nodeRoom := sound.geometry.bounds member
    have covered := (vmAvlCompAddrSpace_eq_zero_iff foundRoom.2.2).mp hit
    exact elsewhere ((sound.geometry.tiles .heap).eq_of_overlap inBefore member
      (vma.startOf node + 40) covered (by omega))

end Replenish

/-! ### Taking a node -/

section Take

variable {vma : Vma} {shape : Shapes} {chain loose : List Nat} {first second : Nat}
  {goal : SummaryGoal VmRegion Nat}

theorem alloc_plenty (sound : vma.Sound goal shape (first :: chain) loose)
    (plenty : minimumAvailableNodes ≤ chain.length) :
    allocVmDsNode vma = .ok (first, vma.taken first) :=
  allocVmDsNode_takes sound.layout (Nat.lt_of_le_of_lt (sound.layout.chain_few sound.geometry) (by decide))
    plenty

theorem alloc_low (sound : vma.Sound goal shape (first :: chain) loose)
    (low : chain.length < minimumAvailableNodes) (calm : vma.inReplenishCycle = false) :
    allocVmDsNode vma =
      replenishSlabFromTree { vma.taken first with inReplenishCycle := true } >>= fun replenished =>
        .ok (first, { replenished with inReplenishCycle := false }) := by
  obtain ⟨taking, taken, _⟩ := takeNode_sound sound
  have counted := taken.layout.counted
  unfold allocVmDsNode
  rw [taking, ok_bind, if_pos]
  · rfl
  · rw [counted]
    exact ⟨low, calm⟩

structure Grown (vma middle : Vma) (shape newShape : Shapes) (first page : Nat) : Prop where
  wired : ∃ newChain, nodesPerPage ≤ newChain.length ∧ newChain.length < 2 ^ 35 ∧
    middle.Wired newShape newChain [first]
  sameShape : newShape .mmio = shape .mmio
  few : (newShape .heap).inorder.length ≤ (shape .heap).inorder.length + 1
  spares : vma.Spares middle (shape .mmio)
  slabPages : middle.slabPages = page :: vma.slabPages
  busy : ∃ slab ∈ (shape .heap).inorder, slab ∈ (newShape .heap).inorder ∧
    (vma.region slab).type = .free ∧ (middle.region slab).type = .regular

def replenishing (vma : Vma) (first : Nat) : Vma :=
  { vma.taken first with inReplenishCycle := true }

section

variable (sound : vma.Sound goal shape (first :: chain) loose)

include sound

theorem replenishing_sound :
    (vma.replenishing first).Sound goal shape chain (first :: loose) :=
  (takeNode_sound sound).2.1.sameNodes rfl

theorem replenishing_region {owner : KTree}
    {other : Nat} (inTree : other ∈ (shape owner).inorder) :
    (vma.replenishing first).region other = vma.region other :=
  (takeNode_sound sound).2.2 owner other inTree

theorem replenishing_candidate
    (tree : KTree) : (vma.replenishing first).candidate (shape tree) =
      vma.candidate (shape tree) := by
  have same : Elsewhere [first] vma.nodes (vma.replenishing first).nodes := clearNode_elsewhere _ _
  apply candidate_unchanged same _ (sound.layout.linked tree)
  exact apart_singleton (fun member => sound.layout.not_chain member mem_cons_self)

theorem alloc_no_slab
    (low : chain.length < minimumAvailableNodes) (calm : vma.inReplenishCycle = false)
    (none : vma.candidate (shape .heap) = none) :
    allocVmDsNode vma = .error .nullDereference := by
  rw [alloc_low sound low calm]
  change replenishSlabFromTree (vma.replenishing first) >>= _ = _
  rw [replenish_none (replenishing_sound sound)
    ((replenishing_candidate sound .heap).trans none)]
  rfl

end

theorem alloc_slab {slab : Nat} (sound : vma.Sound goal shape (first :: second :: chain) loose)
    (low : (second :: chain).length < minimumAvailableNodes)
    (calm : vma.inReplenishCycle = false) (found : vma.candidate (shape .heap) = some slab) :
    ∃ granting, SlabGranted (vma.replenishing first) granting shape chain (first :: loose) second
        slab ∧
      allocVmDsNode vma = touch (vma.startOf slab + 40) granting >>= fun touched =>
        .ok (first, { touched.threaded (vma.startOf slab) (nodesPerPage - 1) with
          inReplenishCycle := false }) := by
  have flagged := replenishing_sound sound
  have startSame : (vma.replenishing first).startOf slab = vma.startOf slab :=
    congrArg VmRegion.startAddr (replenishing_region sound (candidate_free found).1)
  obtain ⟨granting, granted, run⟩ := replenish_some flagged
    ((replenishing_candidate sound .heap).trans found)
  rw [startSame] at run
  refine ⟨granting, granted, ?_⟩
  rw [alloc_low sound low calm]
  change replenishSlabFromTree (vma.replenishing first) >>= _ = _
  rw [run, bind_assoc]
  rfl

/-- Once the first access to the slab page returned, the slab is grown. -/
theorem SlabGranted.grown {granting : Vma} {slab : Nat}
    (sound : vma.Sound goal shape (first :: second :: chain) [])
    (found : vma.candidate (shape .heap) = some slab)
    (granted : SlabGranted (vma.replenishing first) granting shape chain [first] second slab)
    (vmm : Vmm) :
    Grown vma { ({ granting with vmm := vmm } : Vma).threaded (vma.startOf slab) (nodesPerPage - 1)
        with inReplenishCycle := false } shape
      (Function.update shape .heap ((vma.replenishing first).grantTree (shape .heap) second slab 4096))
      first (vma.startOf slab) := by
  obtain ⟨member, free, _⟩ := candidate_free found
  have flagged := replenishing_sound sound
  have flaggedFound := (replenishing_candidate sound .heap).trans found
  have startSame : (vma.replenishing first).startOf slab = vma.startOf slab :=
    congrArg VmRegion.startAddr (replenishing_region sound member)
  obtain ⟨wired, spared⟩ := granted.threaded flagged flaggedFound vmm
  rw [startSame] at wired spared
  have nonzero := flagged.layout.head_ne_zero
  have notSecond : ∀ owner, ∀ other ∈ (shape owner).inorder, other ≠ second :=
    fun owner other inTree same =>
      flagged.layout.not_chain inTree (same ▸ mem_cons_self)
  have slabDifferent := notSecond .heap slab member
  refine
    { wired := ⟨_, ?_, ?_, wired.sameNodes rfl⟩
      sameShape := update_of_ne (by decide) _ _
      few := by
        rw [update_self]
        exact grantTree_length _ _ _ _ _
      spares := ?_
      slabPages := congrArg (List.cons _) granted.slabPages
      busy := ⟨slab, member, ?_, free, ?_⟩ }
  · rw [length_append, length_pageNodes]
    exact Nat.le_add_right _ _
  · have few := flagged.layout.chain_few flagged.geometry
    have fewer := (vma.replenishing first).grantChain_length second slab 4096 chain
    have perPage : nodesPerPage = 46 := rfl
    rw [length_cons] at few
    rw [length_append, length_pageNodes]
    omega
  · have cleared : vma.Spares (vma.replenishing first) (shape .mmio) := by
      apply Spares.of_outside (clearNode_elsewhere vma.nodes first)
      intro other inMmio inside
      exact sound.layout.not_chain inMmio (mem_singleton.mp inside ▸ mem_cons_self)
    have threads := spared .mmio
    rw [update_of_ne (by decide)] at threads
    exact (cleared.trans granted.spares).trans threads
  · rw [update_self]
    exact grantTree_subset member
  · have stays : slab ∈ (Function.update shape .heap
        ((vma.replenishing first).grantTree (shape .heap) second slab 4096) .heap).inorder := by
      rw [update_self]
      exact grantTree_subset member
    have region := (spared .heap).region stays
    rw [granted.regions, grantRegion_node nonzero slabDifferent] at region
    exact congrArg VmRegion.type region

theorem SlabGranted.kernelTrees {granting : Vma} {slab : Nat}
    (sound : vma.Sound goal shape (second :: chain) loose)
    (granted : SlabGranted vma granting shape chain loose second slab) :
    granting.KernelTrees
      (Function.update shape .heap (vma.grantTree (shape .heap) second slab 4096)) := by
  apply granted.wired.kernelTrees
  intro tree
  have heapLength := vma.grantTree_length (shape .heap) second slab 4096
  have heapShort := sound.geometry.short .heap
  have mmioShort := sound.geometry.short .mmio
  cases tree with
  | heap =>
    rw [update_self]
    omega
  | mmio =>
    rw [update_of_ne (by decide)]
    omega

theorem threaded_vmm (vma : Vma) (page last : Nat) : (vma.threaded page last).vmm = vma.vmm := rfl

theorem slab_address {slab : Nat} (sound : vma.Sound goal shape chain loose)
    (found : vma.candidate (shape .heap) = some slab) :
    0x00007FFFFFFFFFFF < vma.startOf slab + 40 ∧ vma.startOf slab + 40 + 4096 ≤ 2 ^ 64 := by
  have room := sound.geometry.bounds (candidate_free found).1
  have low := userLimit_lt_heap
  have high : treeLimit .heap + 4096 ≤ 2 ^ 64 := by decide
  have base : treeStart .heap = kernelHeapStart := rfl
  omega

theorem freeList_head (sound : vma.Sound goal shape (first :: chain) loose) :
    vma.freeList = first := sound.layout.chained.1

section

variable (sound : vma.Sound goal shape (first :: second :: chain) [])
  (low : (second :: chain).length < minimumAvailableNodes) (calm : vma.inReplenishCycle = false)
  (small : ∀ address, vma.vmm.hugeAt address = false)

include sound low calm small

/-- A slab page that can be had is: the node is handed out with the slab grown. -/
theorem alloc_replenishes
    (can : (vma.replenishing first).CanReplenish shape) :
    ∃ slab middle newShape, vma.candidate (shape .heap) = some slab ∧
      allocVmDsNode vma = .ok (first, middle) ∧
      Grown vma middle shape newShape first (vma.startOf slab) ∧
      (middle.vmm = vma.vmm ∨ vma.vmm.leaf (vma.startOf slab + 40) = none ∧
        middle.vmm = vma.vmm.pageIn (vma.startOf slab + 40) slabFlags) := by
  have flagged := replenishing_sound sound
  obtain ⟨slab, flaggedFound, served⟩ := can
  have found : vma.candidate (shape .heap) = some slab :=
    (replenishing_candidate sound .heap).symm.trans flaggedFound
  have member := (candidate_free found).1
  have startSame : (vma.replenishing first).startOf slab = vma.startOf slab :=
    congrArg VmRegion.startAddr (replenishing_region sound member)
  obtain ⟨granting, granted, run⟩ := alloc_slab sound low calm found
  have sameVmm : granting.vmm = vma.vmm := granted.vmm
  have address := slab_address sound found
  have trees := granted.kernelTrees flagged
  rw [startSame] at served
  by_cases present : vma.vmm.leaf (vma.startOf slab + 40) = none
  · obtain ⟨hit, inTree, faults⟩ := served.resolve_left (not_not.mpr present)
    rw [freeList_head flagged] at inTree faults
    have sameRegions : granting.region =
        (vma.replenishing first).grantRegion second slab 4096 .regular slabFlags :=
      funext granted.regions
    rw [← sameRegions] at faults
    have isSlab := granted.fault_slab flagged flaggedFound inTree (startSame ▸ faults)
    have nonzero := flagged.layout.head_ne_zero
    have different := flagged.layout.ne_head member
    have flagsAre : (granting.region hit).flags = slabFlags := by
      rw [isSlab, granted.regions, grantRegion_node nonzero different]
    have heapShape : Function.update shape .heap
        ((vma.replenishing first).grantTree (shape .heap) second slab 4096) .heap =
        (vma.replenishing first).grantTree (shape .heap) second slab 4096 := update_self ..
    have touched := trees.touch_served address.1 (by rw [sameVmm]; exact small _)
      (by rw [sameVmm]; exact present) (by rw [heapShape]; exact faults)
    rw [flagsAre, sameVmm] at touched
    rw [touched, ok_bind] at run
    exact ⟨slab, _, _, found, run, granted.grown sound found _, Or.inr ⟨present, rfl⟩⟩
  · have touched := touch_present (by rw [sameVmm]; exact present :
      granting.vmm.leaf (vma.startOf slab + 40) ≠ none)
    rw [touched, ok_bind] at run
    have same : ({ granting with vmm := granting.vmm } : Vma) = granting := rfl
    have grown := granted.grown sound found granting.vmm
    rw [same] at grown
    refine ⟨slab, _, _, found, run, grown, Or.inl ?_⟩
    dsimp only
    rw [threaded_vmm]
    exact sameVmm

/-- Without a slab page the call faults. -/
theorem alloc_fails
    (cannot : ¬ (vma.replenishing first).CanReplenish shape) :
    ∃ fault, allocVmDsNode vma = .error fault := by
  have flagged := replenishing_sound sound
  cases found : vma.candidate (shape .heap) with
  | none => exact ⟨_, alloc_no_slab sound low calm found⟩
  | some slab =>
    have startSame : (vma.replenishing first).startOf slab = vma.startOf slab :=
      congrArg VmRegion.startAddr (replenishing_region sound (candidate_free found).1)
    obtain ⟨granting, granted, run⟩ := alloc_slab sound low calm found
    have sameVmm : granting.vmm = vma.vmm := granted.vmm
    have address := slab_address sound found
    have missing : ¬ (vma.vmm.leaf (vma.startOf slab + 40) ≠ none ∨ _) :=
      fun served => cannot ⟨slab, (replenishing_candidate sound .heap).trans found,
        startSame ▸ served⟩
    rw [not_or, not_not] at missing
    have refused := (granted.kernelTrees flagged).touch_refused address.1
      (by rw [sameVmm]; exact small _) (by rw [sameVmm]; exact missing.1) (by
        rw [update_self]
        intro hit inTree faults
        apply missing.2
        rw [freeList_head flagged]
        have sameRegions : granting.region =
            (vma.replenishing first).grantRegion second slab 4096 .regular slabFlags :=
          funext granted.regions
        exact ⟨hit, inTree, sameRegions ▸ faults⟩)
    rw [refused] at run
    exact ⟨_, run⟩

end

end Take

end Vma

end Fesos
