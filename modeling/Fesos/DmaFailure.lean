/-
What a DMA allocation that failed leaves behind.

Without frames, without a region for the array, or without a range of the MMIO tree,
nothing was taken yet, or only the array, which is given back.  `kallocate_dma` keeps
its frames when there is no range for them, and `kallocate_scatter_dma` keeps the
range, and the frames it has mapped so far, when there is no frame for a page.
-/

import Fesos.Dma
import Fesos.KmallocReturn
import Fesos.VmaCarved

set_option autoImplicit false

namespace Fesos

open BinaryTree Library

/-! ### Being as before -/

def Vmm.IsTable (vmm : Vmm) (frame : Nat) : Prop :=
  ∃ path : List (Fin 512), path.length ≤ 3 ∧ vmm.tableAt path = some frame

/-- Two regions agree; a FREE region has no flags or backing. -/
def VmRegion.Agrees (left right : VmRegion) : Prop :=
  left = right ∨ left.type = .free ∧ right.type = .free ∧ left.startAddr = right.startAddr ∧
    left.size = right.size

/-- Frames, regions and mappings are as before, apart from frames that became page tables. -/
structure Vma.Restored (before after : Vma) (shape : Vma.Shapes) : Prop where
  trees : ∃ newShape, after.KernelTrees newShape ∧
    ∀ tree, (newShape tree).inorder = (shape tree).inorder
  regions : ∀ tree, ∀ node ∈ (shape tree).inorder,
    (after.region node).Agrees (before.region node)
  frames : ∀ frame, after.vmm.pmm.used frame = before.vmm.pmm.used frame ∨
    before.vmm.pmm.used frame = false ∧ after.vmm.IsTable frame
  translations : ∀ vAddr, after.vmm.leaf vAddr = before.vmm.leaf vAddr ∧
    after.vmm.hugeAt vAddr = before.vmm.hugeAt vAddr

namespace Vma

theorem Restored.refl {vma : Vma} {shape : Shapes} (trees : vma.KernelTrees shape) :
    Restored vma vma shape where
  trees := ⟨shape, trees, fun _ => rfl⟩
  regions := fun _ _ _ => Or.inl rfl
  frames := fun _ => Or.inl rfl
  translations := fun _ => ⟨rfl, rfl⟩

theorem Restored.stays_free {before after : Vma} {shape : Shapes} {tree : KTree} {node : Nat}
    (restored : Restored before after shape) (member : node ∈ (shape tree).inorder)
    (free : (before.region node).type = .free) : (after.region node).type = .free := by
  rcases restored.regions tree node member with same | agree
  · rw [same]
    exact free
  · exact agree.1

/-! ### Contiguous frames -/

section Contiguous

variable {vma after : Vma} {shape : Shapes} {chain : List Nat} {block : DmaBlock}
  {pageCount start : Nat} {goal : SummaryGoal VmRegion Nat}

theorem claim_not_restored (formed : vma.vmm.WellFormed) (positive : 0 < pageCount)
    (free : vma.vmm.pmm.RunFree start pageCount)
    (leaked : after.vmm = { vma.vmm with pmm := vma.vmm.pmm.claim start pageCount }) :
    ¬ Restored vma after shape := by
  intro restored
  have unused := free.2 start (Nat.le_refl _) (by omega)
  have used : after.vmm.pmm.used start = true := by
    rw [leaked, PmmOf.claim_used, decide_eq_true ⟨Nat.le_refl _, by omega⟩]
    rfl
  rcases restored.frames start with same | ⟨_, path, short, isTable⟩
  · rw [used, unused] at same
    cases same
  · rw [leaked, Vmm.claim_tableAt formed free path short] at isTable
    rw [(formed.used path start short isTable).2] at unused
    cases unused

/-- `kmap_mmio` of a page-aligned address returns NULL only without a FREE region. -/
theorem kmapMmio_null {physicalAddress size : Nat} {mmioFlag : MmioFlags}
    (sound : vma.Sound goal shape chain []) (aligned : physicalAddress % 4096 = 0)
    (run : kmapMmio physicalAddress size mmioFlag vma = .ok (0, after)) : after = vma := by
  have serving : servingTree .hardwareMmio (some ⟨physicalAddress / 4096 * 4096, 0⟩) =
      .ok .mmio := rfl
  cases found : vma.candidate (shape .mmio) with
  | none =>
    unfold kmapMmio at run
    rw [ktree_refuses sound serving (Or.inr found)] at run
    cases run
    rfl
  | some chosen =>
    have room := sound.geometry.bounds (candidate_free found).1
    have base := treeStart_pos .mmio
    have limit := treeLimit_lt .mmio
    unfold kmapMmio at run
    obtain ⟨⟨virtualBase, granted⟩, grant, rest⟩ := bind_eq_ok run
    have startIs := (ktree_grants sound serving (by decide) found grant).1
    dsimp only at rest
    rw [startIs, if_neg (by omega), aligned, Nat.add_zero, word_of_lt (by omega)] at rest
    have zero : vma.startOf chosen = 0 := congrArg Prod.fst (Except.ok.inj rest)
    omega

theorem kallocateDma_restores (sound : vma.Sound goal shape chain [])
    (formed : vma.vmm.WellFormed) (run : kallocateDma pageCount vma = .ok (block, after))
    (null : block.virtualAddr = 0) :
    Restored vma after shape ↔
      pageCount = 0 ∨ ∀ start, ¬ vma.vmm.pmm.RunFree start pageCount := by
  unfold kallocateDma at run
  by_cases empty : pageCount = 0
  · have refused : vma.vmm.pmm.pmmAllocateFrames pageCount 0x1000 = (0, vma.vmm.pmm) := by
      unfold PmmOf.pmmAllocateFrames
      rw [if_pos empty]
    dsimp only at run
    rw [refused, if_pos rfl] at run
    cases run
    exact ⟨fun _ => Or.inl empty, fun _ => Restored.refl sound.kernelTrees⟩
  · have positive := Nat.pos_of_ne_zero empty
    have step : PmmOf.frameStep 0x1000 = 1 := by decide
    have outcome := vma.vmm.pmm.pmmAllocateFrames_outcome pageCount 0x1000 (by decide) positive
      (by decide)
    rw [step] at outcome
    generalize vma.vmm.pmm.pmmAllocateFrames pageCount 0x1000 = answer at run outcome
    dsimp only at run
    cases outcome with
    | exhausted nothing =>
      rw [if_pos rfl] at run
      cases run
      constructor
      · intro _
        exact Or.inr (fun start => nothing start (Nat.zero_le _) (Nat.mod_one _))
      · intro _
        exact Restored.refl sound.kernelTrees
    | found start _later _aligned free _least =>
      have leaked : after.vmm = { vma.vmm with pmm := vma.vmm.pmm.claim start pageCount } := by
        split at run
        · cases run
          rfl
        obtain ⟨⟨virtual, mapped⟩, mapping, rest⟩ := bind_eq_ok run
        cases rest
        have isNull : virtual = 0 := null
        rw [isNull] at mapping
        have supplied : ({ vma with vmm :=
            { vma.vmm with pmm := vma.vmm.pmm.claim start pageCount } } : Vma).Sound goal shape
            chain [] :=
          sound.sameNodes rfl
        rw [kmapMmio_null supplied (Nat.mul_mod_left _ _) mapping]
      constructor
      · intro restored
        exact absurd restored (claim_not_restored formed positive free leaked)
      · rintro (isEmpty | nothing)
        · exact absurd isEmpty empty
        · exact absurd free (nothing start)

end Contiguous

/-! ### Reserving the range -/

section Reserve

variable {vma reserved : Vma} {shape : Shapes} {chain : List Nat} {pageCount start : Nat}

/-- The range of a scattered block: refused without a FREE region, and in use otherwise. -/
theorem Ready.reserves (ready : vma.Ready shape chain)
    (placed : ∀ node ∈ (shape .mmio).inorder, vma.startOf node ≠ 0)
    (run : vmaAllocateMemoryFromKtree (scatterSize pageCount) .unmanagedMapping 0 (some ⟨1, 0⟩) vma =
      .ok (start, reserved)) :
    (vma.candidate (shape .mmio) = none ∧ start = 0 ∧ reserved = vma) ∨
      ∃ chosen newShape, vma.candidate (shape .mmio) = some chosen ∧ start ≠ 0 ∧
        reserved.KernelTrees newShape ∧ chosen ∉ (newShape .heap).inorder ∧
        (reserved.region chosen).type = .unmanagedMapping := by
  have busy : VmNodeType.unmanagedMapping ≠ .free := VmNodeType.noConfusion
  have serving : servingTree .unmanagedMapping (some ⟨1, 0⟩) = .ok .mmio := rfl
  rw [ktree_serves serving] at run
  cases found : vma.candidate (shape .mmio) with
  | none =>
    rw [ready.kernelTrees.serves_none busy found] at run
    cases run
    exact Or.inl ⟨rfl, rfl, rfl⟩
  | some chosen =>
    have member := (candidate_free found).1
    obtain ⟨carved, carving, backed, startIs⟩ :=
      ready.kernelTrees.serves_some busy found run
    obtain ⟨newShape, newChain, carves⟩ := ready.carves member carving
    have inNew := carves.kept .mmio chosen member
    obtain ⟨recorded, vmm, state⟩ := back_ok backed
    obtain ⟨backedStart, backedType⟩ := back_starts backed chosen
    refine Or.inr ⟨chosen, newShape, rfl, ?_, ?_, ?_, ?_⟩
    · rw [startIs, backedStart, carve_starts ready.keepsStarts carving member member]
      exact placed chosen member
    · rw [state]
      have wired := (carves.wired.setRegion inNew
        { carved.region chosen with backing := recorded }).sameNodes
          (show ({ carved.setRegion chosen { carved.region chosen with backing := recorded } with
            vmm := vmm } : Vma).nodes = _ from rfl)
      apply wired.kernelTrees
      intro tree
      have short := ready.short tree
      have few := carves.few tree
      unfold treeFuel
      omega
    · exact fun inHeap => carves.wired.layout.trees_apart
        (KTree.noConfusion : KTree.heap ≠ .mmio) inNew inHeap
    · rw [backedType, carve_type carving]

end Reserve

end Vma

/-! ### The array -/

namespace Kmalloc

/-- The bytes of the heap region that the array needs, unless a bucket page has room. -/
def arrayRegion (heap : Kmalloc Vma) (pageCount : Nat) : Option Nat :=
  if 1024 < word (8 * pageCount) then some (roundToPages (word (8 * pageCount)))
  else if heap.head .free (getBucketFromSize (word (8 * pageCount))) = 0 then some 4096
  else none

/-- A region of the heap that is allocated, accessed if it becomes a bucket page, and given
back. -/
def borrowRegion (bucketPage : Bool) (size : Nat) (vma : Vma) : Except Fault Vma := do
  let region ← Vma.vmaAllocateMemoryFromKtree size .regular slabFlags none vma
  let accessed ← if bucketPage then Vma.touch region.1 region.2 else pure region.2
  Vma.vmaFreeMemoryFromKtree region.1 accessed

/-- Regions, page tables and bucket pages between two calls: every bucket page is a region
of the heap with a block in use. -/
structure Rested (heap : Kmalloc Vma) (goal : VmRegion → Option Nat → Option Nat → Nat → Prop)
    (shape : Vma.Shapes) (chain live : List Nat) (lists : PageList → Nat → List Nat)
    (free : Nat → List Nat) : Prop where
  regions : heap.regions.Sound goal shape chain []
  stocked : minimumAvailableNodes ≤ chain.length
  calm : heap.regions.inReplenishCycle = false
  formed : heap.regions.vmm.WellFormed
  blocks : heap.Sound live lists free
  busy : ∀ page ∈ heap.held, usedIn live page ≠ []
  placed : ∀ page ∈ heap.held, heap.regions.InUse shape .heap page 4096

section Array

variable {heap after : Kmalloc Vma} {goal : SummaryGoal VmRegion Nat}
  {shape : Vma.Shapes} {chain live : List Nat} {lists : PageList → Nat → List Nat}
  {free : Nat → List Nat} {pageCount array size chosen : Nat}

theorem arrayRegion_aligned (needed : heap.arrayRegion pageCount = some size) :
    size % 4096 = 0 := by
  unfold arrayRegion at needed
  split at needed
  · cases needed
    exact roundToPages_aligned _
  split at needed
  · cases needed
    rfl
  · cases needed

section

variable (rested : heap.Rested goal shape chain live lists free)

include rested

theorem regular_refused
    (nothing : heap.regions.candidate (shape .heap) = none) (size : Nat) :
    vmaSource.allocate size heap.regions = .ok (0, heap.regions) := by
  have serving : Vma.servingTree .regular none = .ok .heap := rfl
  exact Vma.ktree_refuses rested.regions serving (Or.inr nothing)

theorem regular_granted
    (found : heap.regions.candidate (shape .heap) = some chosen) {start : Nat} {granted : Vma}
    (grant : vmaSource.allocate size heap.regions = .ok (start, granted)) :
    start = heap.regions.startOf chosen ∧
      Vma.carve Vma.allocVmDsNode .heap size .regular slabFlags chosen heap.regions =
        .ok granted := by
  have busy : VmNodeType.regular ≠ .free := VmNodeType.noConfusion
  have serving : Vma.servingTree .regular none = .ok .heap := rfl
  constructor
  · exact (Vma.ktree_grants rested.regions serving busy found grant).1
  · change Vma.vmaAllocateMemoryFromKtree _ _ _ _ _ = _ at grant
    rw [Vma.ktree_serves serving] at grant
    obtain ⟨carved, carving, backed, _⟩ := Vma.serve_some rested.regions found busy grant
    cases backed
    exact carving

theorem Rested.fresh
    (found : heap.regions.candidate (shape .heap) = some chosen) :
    heap.regions.startOf chosen ∉ heap.held := by
  intro isHeld
  obtain ⟨member, isFree, _⟩ := Vma.candidate_free found
  obtain ⟨node, inHeap, startIs, sizeIs, inUse⟩ := rested.placed _ isHeld
  have room := rested.regions.geometry.bounds member
  have same := (rested.regions.geometry.tiles .heap).eq_of_overlap inHeap member
    (heap.regions.startOf chosen) (by omega) (by omega)
  rw [same] at inUse
  exact inUse isFree

end

structure OwnRegion (heap after : Kmalloc Vma) (pageCount size chosen array : Nat) : Prop where
  nonzero : array ≠ 0
  page : pageOf array = heap.regions.startOf chosen
  carved : ∃ granted vmm,
    Vma.carve Vma.allocVmDsNode .heap size .regular slabFlags chosen heap.regions = .ok granted ∧
      after.regions = { granted with vmm := vmm }
  returned : ∀ freed, kfree vmaSource array after = .ok freed →
    borrowRegion (word (8 * pageCount) ≤ 1024) size heap.regions = .ok freed.regions

section

variable (rested : heap.Rested goal shape chain live lists free)
  (positive : word (8 * pageCount) ≠ 0)

include rested positive

theorem array_region (needed : heap.arrayRegion pageCount = some size)
    (found : heap.regions.candidate (shape .heap) = some chosen)
    (run : kmalloc vmaSource (word (8 * pageCount)) heap = .ok (array, after)) :
    OwnRegion heap after pageCount size chosen array := by
  have member := (Vma.candidate_free found).1
  have room := rested.regions.geometry.bounds member
  have base := Vma.treeStart_pos .heap
  have aligned := rested.regions.geometry.aligned member
  unfold arrayRegion at needed
  by_cases large : 1024 < word (8 * pageCount)
  · rw [if_pos large] at needed
    rw [kmalloc_large vmaSource large] at run
    obtain ⟨⟨start, granted⟩, grant, returned⟩ := bind_eq_ok run
    cases returned
    rw [Option.some.inj needed] at grant
    obtain ⟨startIs, carving⟩ := regular_granted rested found grant
    have small : ¬ word (8 * pageCount) ≤ 1024 := Nat.not_le.mpr large
    refine ⟨?_, ?_, ⟨granted, granted.vmm, carving, rfl⟩, ?_⟩
    · change start ≠ 0
      omega
    · unfold pageOf
      omega
    · intro freed freeing
      unfold kfree at freeing
      rw [if_pos (by omega)] at freeing
      obtain ⟨regions, isFreed, rest⟩ := bind_eq_ok freeing
      cases rest
      unfold borrowRegion
      change vmaSource.allocate size heap.regions >>= _ = _
      rw [grant, ok_bind, decide_eq_false small]
      exact isFreed
  · rw [if_neg large] at needed
    have small := Nat.not_lt.mp large
    split at needed
    · rename_i empty
      cases needed
      cases grant : vmaSource.allocate 4096 heap.regions with
      | error fault =>
        rw [kmalloc_bucket vmaSource (Nat.pos_of_ne_zero positive) small, if_pos empty] at run
        unfold allocatePageForBucket at run
        rw [grant] at run
        cases run
      | ok result =>
        obtain ⟨start, granted⟩ := result
        obtain ⟨startIs, carving⟩ := regular_granted rested found grant
        obtain ⟨nonzero, inPage, touching, newLists, newFree, sound⟩ := kmalloc_fresh rested.blocks
          (Nat.pos_of_ne_zero positive) small empty grant (by omega) (by omega)
          (startIs ▸ rested.fresh found) run
        obtain ⟨vmm, touchedIs⟩ := Vma.touch_ok touching
        refine ⟨nonzero, inPage.trans startIs, ⟨granted, vmm, carving, touchedIs⟩, ?_⟩
        intro freed freeing
        have unused : usedIn live (pageOf array) = [] := by
          apply List.filter_eq_nil_iff.mpr
          intro address isLive inside
          have held := rested.blocks.blocks.live address isLive
          rw [of_decide_eq_true inside, inPage, startIs] at held
          exact rested.fresh found held
        have alone : (usedIn (array :: live) (pageOf array)).length = 1 := by
          rw [usedIn_cons_same rfl, unused]
          rfl
        have isFreed := kfree_last sound.blocks List.mem_cons_self alone freeing
        unfold borrowRegion
        change vmaSource.allocate 4096 heap.regions >>= _ = _
        rw [grant, ok_bind, decide_eq_true small]
        change vmaSource.touch start granted >>= _ = _
        rw [touching, ok_bind, ← inPage]
        exact isFreed
    · cases needed

theorem array_refused (needed : heap.arrayRegion pageCount = some size)
    (nothing : heap.regions.candidate (shape .heap) = none) :
    kmalloc vmaSource (word (8 * pageCount)) heap = .ok (0, heap) := by
  unfold arrayRegion at needed
  by_cases large : 1024 < word (8 * pageCount)
  · rw [kmalloc_large vmaSource large, regular_refused rested nothing]
    rfl
  rw [if_neg large] at needed
  split at needed
  · rename_i empty
    exact kmalloc_refused (Nat.pos_of_ne_zero positive) (Nat.not_lt.mp large) empty
      (regular_refused rested nothing 4096)
  · cases needed

/-- The array, out of a bucket page: giving it back right away leaves the regions. -/
theorem array_room (needed : heap.arrayRegion pageCount = none)
    (run : kmalloc vmaSource (word (8 * pageCount)) heap = .ok (array, after)) :
    array ≠ 0 ∧ pageOf array ∈ heap.held ∧ after.regions = heap.regions ∧
      ∀ freed, kfree vmaSource array after = .ok freed → freed.regions = heap.regions := by
  unfold arrayRegion at needed
  split at needed
  · cases needed
  rename_i small
  split at needed
  · cases needed
  rename_i room
  obtain ⟨nonzero, sameRegions, isHeld, newLists, newFree, sound⟩ := kmalloc_room rested.blocks
    (Nat.pos_of_ne_zero positive) (Nat.not_lt.mp small) room run
  refine ⟨nonzero, isHeld, sameRegions, ?_⟩
  intro freed freeing
  have shared : 1 < (usedIn (array :: live) (pageOf array)).length := by
    rw [usedIn_cons_same rfl, List.length_cons]
    exact Nat.succ_lt_succ (List.length_pos_iff.mpr (rested.busy _ isHeld))
  exact (kfree_shared sound.blocks List.mem_cons_self shared freeing).trans sameRegions

end

end Array

/-! ### Scattered frames -/

def SplitsArrayInOrder (heap : Kmalloc Vma) (shape : Vma.Shapes) (pageCount : Nat) : Prop :=
  heap.regions.freeNodeCount = minimumAvailableNodes + 1 →
    ∀ size ∈ heap.arrayRegion pageCount, ∀ chosen ∈ heap.regions.candidate (shape .heap),
      ¬ size = heap.regions.sizeOf chosen →
        heap.regions.SplitsInOrder (shape .heap) chosen size

/-- When a call that fails leaves nothing behind: without pages, without memory for the
array, or without a range, provided that a region of the array's own can be given back. -/
def ScatterRestores (heap : Kmalloc Vma) (shape : Vma.Shapes) (pageCount : Nat) : Prop :=
  pageCount = 0 ∨ word (8 * pageCount) = 0 ∨
    (heap.arrayRegion pageCount ≠ none ∧ heap.regions.candidate (shape .heap) = none) ∨
    heap.regions.candidate (shape .mmio) = none ∧ ∀ size ∈ heap.arrayRegion pageCount,
      ∃ final, borrowRegion (word (8 * pageCount) ≤ 1024) size heap.regions = .ok final ∧
        Vma.Restored heap.regions final shape

structure ArrayTaken (heap taken : Kmalloc Vma) (shape : Vma.Shapes) (array : Nat) : Prop where
  nonzero : array ≠ 0
  inHeap : kernelHeapStart ≤ pageOf array
  ready : ∃ newShape newChain, taken.regions.Ready newShape newChain ∧
    newShape .mmio = shape .mmio ∧ heap.regions.Spares taken.regions (shape .mmio)

section Scattered

variable {heap taken after : Kmalloc Vma} {block : DmaScatterBlock}
  {goal : SummaryGoal VmRegion Nat}
  {shape : Vma.Shapes} {chain live : List Nat} {lists : PageList → Nat → List Nat}
  {free : Nat → List Nat} {pageCount array size chosen : Nat}

theorem ArrayTaken.own (rested : heap.Rested goal shape chain live lists free)
    (orderly : heap.SplitsArrayInOrder shape pageCount)
    (needed : heap.arrayRegion pageCount = some size)
    (found : heap.regions.candidate (shape .heap) = some chosen)
    (own : OwnRegion heap taken pageCount size chosen array) :
    ArrayTaken heap taken shape array := by
  obtain ⟨member, isFree, _⟩ := Vma.candidate_free found
  have room := rested.regions.geometry.bounds member
  have base : Vma.treeStart .heap = kernelHeapStart := rfl
  obtain ⟨granted, vmm, carving, state⟩ := own.carved
  obtain ⟨newShape, newChain, carves, ready⟩ := rested.regions.carves_ready rested.stocked
    rested.calm member isFree VmNodeType.noConfusion (arrayRegion_aligned needed)
    (fun lone => orderly (rested.regions.layout.counted.trans lone) size needed chosen found) carving
  obtain ⟨sameMmio, spares⟩ := carves.aside rfl
  refine ⟨own.nonzero, ?_, newShape, newChain, ?_, sameMmio, ?_⟩
  · rw [own.page]
    omega
  · rw [state]
    exact ready.withTables vmm
  · rw [state]
    exact spares

theorem ArrayTaken.room (rested : heap.Rested goal shape chain live lists free)
    (nonzero : array ≠ 0) (isHeld : pageOf array ∈ heap.held)
    (same : taken.regions = heap.regions) : ArrayTaken heap taken shape array := by
  obtain ⟨node, member, startIs, _⟩ := rested.placed _ isHeld
  have room := rested.regions.geometry.bounds member
  have base : Vma.treeStart .heap = kernelHeapStart := rfl
  refine ⟨nonzero, by omega, shape, chain, ?_, rfl, ?_⟩
  · rw [same]
    exact rested.regions.ready rested.stocked rested.calm
  · rw [same]
    exact Vma.Spares.of_outside (AvlStore.SameOutside.refl [] _).elsewhere (fun _ _ => nofun)

theorem mapScattered_regions {remaining page currentVAddress : Nat} {done : Bool}
    (run : mapScattered array remaining page currentVAddress heap = .ok (done, after)) :
    ∃ vmm, after.regions = { heap.regions with vmm := vmm } := by
  induction remaining generalizing page currentVAddress heap with
  | zero =>
    cases run
    exact ⟨_, rfl⟩
  | succ remaining ih =>
    rw [mapScattered] at run
    dsimp only at run
    split at run
    · cases run
      exact ⟨_, rfl⟩
    obtain ⟨stored, touching, rest⟩ := bind_eq_ok run
    obtain ⟨touchedVmm, touchedIs⟩ := Vma.touch_ok touching
    obtain ⟨vmm, state⟩ := ih rest
    refine ⟨vmm, ?_⟩
    rw [state, touchedIs]
    rfl

/-- Once the array is there, the call fails for want of a range, and the array is given back,
or for want of a frame, and the range stays in use. -/
theorem ArrayTaken.fails (rested : heap.Rested goal shape chain live lists free)
    (array_taken : ArrayTaken heap taken shape array) {start : Nat} {reserved : Vma}
    (reserving : Vma.vmaAllocateMemoryFromKtree (scatterSize pageCount) .unmanagedMapping 0
      (some ⟨1, 0⟩) taken.regions = .ok (start, reserved)) :
    (heap.regions.candidate (shape .mmio) = none ∧ start = 0 ∧ reserved = taken.regions) ∨
      heap.regions.candidate (shape .mmio) ≠ none ∧ start ≠ 0 ∧
        ∀ (mapped : Kmalloc Vma) (vmm : Vmm), mapped.regions = { reserved with vmm := vmm } →
          kfree vmaSource array mapped = .ok after →
            ¬ Vma.Restored heap.regions after.regions shape := by
  obtain ⟨newShape, newChain, ready, sameMmio, spares⟩ := array_taken.ready
  have sameCandidate : taken.regions.candidate (newShape .mmio) =
      heap.regions.candidate (shape .mmio) := by
    obtain ⟨written, same, outside⟩ := spares
    rw [sameMmio]
    exact Vma.candidate_unchanged same outside (rested.regions.layout.linked .mmio)
  have placed : ∀ node ∈ (newShape .mmio).inorder, taken.regions.startOf node ≠ 0 := by
    intro node member
    rw [sameMmio] at member
    have room := rested.regions.geometry.bounds member
    have base := Vma.treeStart_pos .mmio
    have same : taken.regions.startOf node = heap.regions.startOf node :=
      congrArg VmRegion.startAddr (spares.region member)
    omega
  rcases ready.reserves placed reserving with ⟨nothing, isNull, same⟩ |
      ⟨chosen, finalShape, found, nonzero, trees, outside, inUse⟩
  · exact Or.inl ⟨sameCandidate ▸ nothing, isNull, same⟩
  rw [sameCandidate] at found
  refine Or.inr ⟨by rw [found]; exact Option.some_ne_none _, nonzero, ?_⟩
  intro mapped vmm state freeing restored
  obtain ⟨member, wasFree, _⟩ := Vma.candidate_free found
  have isFree := restored.stays_free member wasFree
  have mappedTrees : mapped.regions.KernelTrees finalShape := by
    rw [state]
    exact trees.withTables vmm
  have stillUsed : (mapped.regions.region chosen).type = .unmanagedMapping := by
    rw [state]
    exact inUse
  have kept : after.regions.region chosen = mapped.regions.region chosen := by
    rcases kfree_regions freeing with same | freed
    · rw [same]
    · exact mappedTrees.heap_free_keeps array_taken.inHeap freed outside
  rw [kept, stillUsed] at isFree
  cases isFree

theorem kallocateScatterDma_restores (rested : heap.Rested goal shape chain live lists free)
    (orderly : heap.SplitsArrayInOrder shape pageCount)
    (run : kallocateScatterDma pageCount heap = .ok (block, after))
    (null : block.virtualAddr = 0) :
    Vma.Restored heap.regions after.regions shape ↔ heap.ScatterRestores shape pageCount := by
  have unchanged : Vma.Restored heap.regions heap.regions shape :=
    Vma.Restored.refl rested.regions.kernelTrees
  unfold kallocateScatterDma at run
  by_cases empty : pageCount = 0
  · rw [if_pos empty] at run
    cases run
    exact ⟨fun _ => Or.inl empty, fun _ => unchanged⟩
  rw [if_neg empty] at run
  obtain ⟨⟨array, taken⟩, allocating, rest⟩ := bind_eq_ok run
  dsimp only at rest
  by_cases wraps : word (8 * pageCount) = 0
  · have nothing : kmalloc vmaSource (word (8 * pageCount)) heap = .ok (0, heap) := by
      unfold kmalloc
      exact if_pos wraps
    cases nothing.symm.trans allocating
    rw [if_pos rfl] at rest
    cases rest
    exact ⟨fun _ => Or.inr (Or.inl wraps), fun _ => unchanged⟩
  -- The array is there: the call goes on to reserve the range.
  have later : ArrayTaken heap taken shape array →
      (heap.regions.candidate (shape .mmio) = none ∧ kfree vmaSource array taken = .ok after) ∨
        heap.regions.candidate (shape .mmio) ≠ none ∧
          ¬ Vma.Restored heap.regions after.regions shape := by
    intro arrayTaken
    rw [if_neg arrayTaken.nonzero] at rest
    obtain ⟨⟨start, reserved⟩, reserving, tail⟩ := bind_eq_ok rest
    dsimp only at tail
    rcases arrayTaken.fails rested reserving with ⟨nothing, isNull, same⟩ | ⟨found, nonzero, leaks⟩
    · rw [if_pos isNull, same] at tail
      obtain ⟨freed, freeing, returned⟩ := bind_eq_ok tail
      cases returned
      exact Or.inl ⟨nothing, freeing⟩
    rw [if_neg nonzero] at tail
    obtain ⟨⟨done, mapped⟩, mapping, last⟩ := bind_eq_ok tail
    obtain ⟨vmm, state⟩ := mapScattered_regions mapping
    cases done with
    | true =>
      rw [if_pos rfl] at last
      have blockIs := (Prod.mk.inj (Except.ok.inj last)).1
      rw [← blockIs] at null
      exact absurd null nonzero
    | false =>
      rw [if_neg Bool.false_ne_true] at last
      obtain ⟨freed, freeing, returned⟩ := bind_eq_ok last
      have afterIs := (Prod.mk.inj (Except.ok.inj returned)).2
      rw [afterIs] at freeing
      exact Or.inr ⟨found, leaks mapped vmm state freeing⟩
  cases needed : heap.arrayRegion pageCount with
  | none =>
    obtain ⟨nonzero, isHeld, same, givesBack⟩ := array_room rested wraps needed allocating
    rcases later (ArrayTaken.room rested nonzero isHeld same) with ⟨nothing, freeing⟩ |
        ⟨found, leaks⟩
    · rw [givesBack after freeing]
      refine ⟨fun _ => Or.inr (Or.inr (Or.inr ⟨nothing, ?_⟩)), fun _ => unchanged⟩
      intro size isSize
      rw [needed] at isSize
      cases isSize
    · refine ⟨fun restored => absurd restored leaks, ?_⟩
      rintro (isEmpty | isZero | ⟨isNeeded, _⟩ | ⟨nothing, _⟩)
      · exact absurd isEmpty empty
      · exact absurd isZero wraps
      · exact absurd needed isNeeded
      · exact absurd nothing found
  | some size =>
    cases heapFound : heap.regions.candidate (shape .heap) with
    | none =>
      cases (array_refused rested wraps needed heapFound).symm.trans allocating
      rw [if_pos rfl] at rest
      cases rest
      refine ⟨fun _ => Or.inr (Or.inr (Or.inl ⟨?_, heapFound⟩)), fun _ => unchanged⟩
      rw [needed]
      exact Option.some_ne_none _
    | some chosen =>
      have own := array_region rested wraps needed heapFound allocating
      rcases later (ArrayTaken.own rested orderly needed heapFound own) with
          ⟨nothing, freeing⟩ | ⟨found, leaks⟩
      · have borrowed := own.returned after freeing
        constructor
        · intro restored
          refine Or.inr (Or.inr (Or.inr ⟨nothing, ?_⟩))
          intro other isSize
          cases needed.symm.trans isSize
          exact ⟨after.regions, borrowed, restored⟩
        · rintro (isEmpty | isZero | ⟨_, isNone⟩ | ⟨_, returns⟩)
          · exact absurd isEmpty empty
          · exact absurd isZero wraps
          · rw [heapFound] at isNone
            cases isNone
          · obtain ⟨final, again, restored⟩ := returns size needed
            cases borrowed.symm.trans again
            exact restored
      · refine ⟨fun restored => absurd restored leaks, ?_⟩
        rintro (isEmpty | isZero | ⟨_, isNone⟩ | ⟨nothing, _⟩)
        · exact absurd isEmpty empty
        · exact absurd isZero wraps
        · rw [heapFound] at isNone
          cases isNone
        · exact absurd nothing found

end Scattered

end Kmalloc

end Fesos
