/-
The virtual memory areas of memory/vma.c.

Regions are nodes of two AVL trees, one for the kernel heap and one for MMIO;
`subtree_max_free_slot` is the summary the tree code keeps.  Unused nodes are
chained through their `start_addr`.  The node slab lives in the heap it
describes: a slab page is touched right after it was allocated, and the page
fault brings in a frame.  `slabPages` is a ghost record of the pages threaded
onto the free list; no function reads it.
-/

import Fesos.Avl
import Fesos.VmmTables

set_option autoImplicit false

namespace Fesos

def kernelStackLimit : Nat := 0xFFFFFFFF80000000 - 2 * 1024 * 1024
def kernelHeapSize : Nat := 16 * 1024 * 1024 * 1024
def kernelHeapLimit : Nat := kernelStackLimit - 4096
def kernelHeapStart : Nat := kernelHeapLimit - kernelHeapSize
def kernelMmioSize : Nat := 16 * 1024 * 1024 * 1024
def kernelMmioLimit : Nat := kernelHeapStart - 4096
def kernelMmioStart : Nat := kernelMmioLimit - kernelMmioSize

def minimumAvailableNodes : Nat := 5

/-- `4096 / sizeof(vm_ds_node)`, with 88 bytes a node. -/
def nodesPerPage : Nat := 4096 / 88

/-- `PT_GLOBAL | PT_WRITEABLE | PT_NX`. -/
def slabFlags : Nat := 0x61

inductive VmNodeType where
  | free
  | regular
  | fileBacked
  | hardwareMmio
  | unmanagedMapping
  deriving DecidableEq, Repr

/-- The two words of the union: `file_ptr`, `physical_start` and
`unmanaged.tree` share the first. -/
structure VmaBacking where
  first : Nat
  second : Nat
  deriving DecidableEq, Repr

def VmaBacking.isKmmio (backing : VmaBacking) : Prop := backing.first % 2 ^ 32 = 1

instance (backing : VmaBacking) : Decidable backing.isKmmio :=
  inferInstanceAs (Decidable (backing.first % 2 ^ 32 = 1))

structure VmRegion where
  startAddr : Nat
  size : Nat
  type : VmNodeType
  flags : Nat
  backing : VmaBacking
  deriving DecidableEq, Repr

def VmRegion.zero : VmRegion :=
  { startAddr := 0
    size := 0
    type := .free
    flags := 0
    backing := ⟨0, 0⟩ }

inductive KTree where
  | heap
  | mmio
  deriving DecidableEq, Repr

structure Vma where
  nodes : AvlStore VmRegion Nat
  heapRoot : Nat
  mmioRoot : Nat
  freeList : Nat
  freeNodeCount : Nat
  inReplenishCycle : Bool
  vmm : Vmm
  slabPages : List Nat

/-! ### Update callback and comparisons -/

def vmAvlUpdate (region : VmRegion) (left right : Option Nat) : Nat :=
  max (max (left.getD 0) (right.getD 0)) (if region.type = .free then region.size else 0)

/-- The address of `vm_avl_update`, the only callback the VMA installs. -/
def vmAvlUpdateAddress : Nat := 1

def vmCallbacks : AvlCallbacks VmRegion Nat := fun callback =>
  if callback = vmAvlUpdateAddress then some vmAvlUpdate else none

/-- The difference of two addresses, cut to `int`. -/
def vmAvlCompAddr (key : Nat) (region : VmRegion) : Int :=
  toInt32 ((region.startAddr : Int) - key)

def vmAvlCompAddrSpace (key : Nat) (region : VmRegion) : Int :=
  if region.startAddr ≤ key ∧ word (region.startAddr + region.size) > key then 0
  else if region.startAddr > key then 1
  else -1

def vmAvlCompMaxFreeSlot (store : AvlStore VmRegion Nat) (node : Nat) : Int :=
  if (store.data node).size = store.summary node ∧ (store.data node).type = .free then 0
  else if store.left node ≠ 0 ∧ store.summary (store.left node) = store.summary node then 1
  else -1

/-- More rounds than a kernel tree has nodes: 16 GiB hold `2 ^ 22` pages. -/
def treeFuel : Nat := 2 ^ 23

namespace Vma

def root (vma : Vma) : KTree → Nat
  | .heap => vma.heapRoot
  | .mmio => vma.mmioRoot

def setTree (vma : Vma) (tree : KTree) (root : Nat) (nodes : AvlStore VmRegion Nat) : Vma :=
  match tree with
  | .heap => { vma with heapRoot := root, nodes := nodes }
  | .mmio => { vma with mmioRoot := root, nodes := nodes }

def region (vma : Vma) (node : Nat) : VmRegion := vma.nodes.data node

def setRegion (vma : Vma) (node : Nat) (region : VmRegion) : Vma :=
  { vma with nodes := vma.nodes.setData node region }

/-! ### Demand paging -/

/-- The region a fault falls into; user addresses are not tracked. -/
def nodeForAddress (faultAddr : Nat) (vma : Vma) : Except Fault Nat :=
  if faultAddr ≤ 0x00007FFFFFFFFFFF then .ok 0
  else
    AvlStore.avlGetNode (fun store node => vmAvlCompAddrSpace faultAddr (store.data node))
      treeFuel vma.heapRoot vma.nodes

def vmaDemandPaging (faultAddr : Nat) (vma : Vma) : Except Fault (Nat × Vma) := do
  let nodeForAddress ← nodeForAddress faultAddr vma
  if nodeForAddress = 0 then pure (1, vma)
  else if (vma.region nodeForAddress).type ≠ .regular then pure (1, vma)
  else
    let allocated := vma.vmm.pmm.pmmAllocateFrames 1 4096
    let supplied : Vmm := { vma.vmm with pmm := allocated.2 }
    let mapped := supplied.vmmMap faultAddr allocated.1 1 (vma.region nodeForAddress).flags
    pure (0, { vma with vmm := mapped.2 })

/-- An access to kernel memory: a page that is not present faults, and
`vmm_page_fault_callback` panics unless demand paging brings it in. -/
def touch (vAddr : Nat) (vma : Vma) : Except Fault Vma :=
  if vma.vmm.hugeAt vAddr || (vma.vmm.leaf vAddr).isSome then .ok vma
  else do
    let paged ← vmaDemandPaging vAddr vma
    if paged.1 = 0 then pure paged.2 else .error (.pageFault vAddr)

/-! ### The node slab -/

def clearNode (store : AvlStore VmRegion Nat) (node : Nat) : AvlStore VmRegion Nat :=
  ((store.avlInit node 0).setData node VmRegion.zero).setSummary node 0

def setStart (store : AvlStore VmRegion Nat) (node start : Nat) : AvlStore VmRegion Nat :=
  store.setData node { store.data node with startAddr := start }

/-- `alloc_vm_ds_node` up to its test of the remaining count. -/
def takeNode (vma : Vma) : Except Fault (Nat × Vma) :=
  if vma.freeList = 0 then .error .nullDereference
  else
    .ok (vma.freeList,
      { vma with
        nodes := clearNode vma.nodes vma.freeList
        freeList := (vma.region vma.freeList).startAddr
        freeNodeCount := wordSub vma.freeNodeCount 1 })

def initVmDsNode (store : AvlStore VmRegion Nat) (node start size : Nat) (type : VmNodeType)
    (updateCallback : Nat) : AvlStore VmRegion Nat :=
  ((store.setData node
    { store.data node with startAddr := start, size := size, type := type }).setSummary
      node size).avlInit node updateCallback

/-- Chain the first `count` nodes of a page, each to the one behind it. -/
def threadNodes (page : Nat) : Nat → AvlStore VmRegion Nat → AvlStore VmRegion Nat
  | 0, store => store
  | count + 1, store =>
    setStart (threadNodes page count store) (page + 88 * count) (page + 88 * (count + 1))

/-! ### Allocation -/

/-- Take the request out of the chosen region: whole, or from its start. -/
def carve (allocNode : Vma → Except Fault (Nat × Vma)) (tree : KTree) (size : Nat)
    (type : VmNodeType) (flags nodeForRequest : Nat) (vma : Vma) : Except Fault Vma :=
  if size = (vma.region nodeForRequest).size then
    .ok (vma.setRegion nodeForRequest
      { vma.region nodeForRequest with type := type, flags := flags })
  else do
    let leftover ← allocNode vma
    let chosen := leftover.2.region nodeForRequest
    let leftoverStart := word (chosen.startAddr + size)
    let prepared := initVmDsNode leftover.2.nodes leftover.1 leftoverStart
      (wordSub chosen.size size) .free vmAvlUpdateAddress
    let shrunk := prepared.setData nodeForRequest
      { prepared.data nodeForRequest with type := type, flags := flags, size := size }
    let inserted ← AvlStore.avlInsert vmCallbacks (vmAvlCompAddr leftoverStart) treeFuel
      (leftover.2.root tree) leftover.1 shrunk
    pure (leftover.2.setTree tree inserted.1 inserted.2)

/-- Record the backing of a new region; MMIO is mapped at once, and what
`vmm_map` returns is ignored. -/
def back (size : Nat) (type : VmNodeType) (flags : Nat) (backing : Option VmaBacking)
    (node : Nat) (vma : Vma) : Except Fault Vma :=
  let old := vma.region node
  match type, backing with
  | .free, _ => .ok vma
  | .regular, _ => .ok vma
  | _, none => .error .nullDereference
  | .hardwareMmio, some given =>
    let recorded := vma.setRegion node { old with backing := { old.backing with first := given.first } }
    .ok { recorded with
      vmm := (vma.vmm.vmmMap old.startAddr given.first (size / 4096) flags).2 }
  | .fileBacked, some given =>
    .ok (vma.setRegion node { old with backing := ⟨given.first, given.first⟩ })
  | .unmanagedMapping, some given =>
    .ok (vma.setRegion node
      { old with backing :=
          { old.backing with
            first := given.first % 2 ^ 32 + old.backing.first / 2 ^ 32 * 2 ^ 32 } })

/-- The worst fit: the region `vm_avl_comp_max_free_slot` leads to. -/
def worstFit (vma : Vma) (tree : KTree) : Except Fault Nat :=
  AvlStore.avlGetNode vmAvlCompMaxFreeSlot treeFuel (vma.root tree) vma.nodes

def vmaAllocateMemoryFromTreeWith (allocNode : Vma → Except Fault (Nat × Vma)) (tree : KTree)
    (size : Nat) (type : VmNodeType) (flags : Nat) (backing : Option VmaBacking) (vma : Vma) :
    Except Fault (Nat × Vma) :=
  if type = .free then .ok (0, vma)
  else do
    let nodeForRequest ← vma.worstFit tree
    if nodeForRequest = 0 then pure (0, vma)
    else do
      let carved ← carve allocNode tree size type flags nodeForRequest vma
      let backed ← back size type flags backing nodeForRequest carved
      pure ((backed.region nodeForRequest).startAddr, backed)

/-- Runs with `in_replenish_cycle` set, so the allocation takes its node without
replenishing again. -/
def replenishSlabFromTree (vma : Vma) : Except Fault Vma := do
  let page ← vmaAllocateMemoryFromTreeWith takeNode .heap 4096 .regular slabFlags none vma
  if page.1 = 0 then .error .nullDereference
  else do
    let touched ← touch (page.1 + 40) page.2
    let threaded := threadNodes page.1 (nodesPerPage - 1) touched.nodes
    let last := page.1 + 88 * (nodesPerPage - 1)
    pure { touched with
      nodes := setStart threaded last touched.freeList
      freeNodeCount := word (touched.freeNodeCount + nodesPerPage)
      freeList := page.1
      slabPages := page.1 :: touched.slabPages }

def allocVmDsNode (vma : Vma) : Except Fault (Nat × Vma) := do
  let taken ← takeNode vma
  if taken.2.freeNodeCount < minimumAvailableNodes ∧ taken.2.inReplenishCycle = false then do
    let replenished ← replenishSlabFromTree { taken.2 with inReplenishCycle := true }
    pure (taken.1, { replenished with inReplenishCycle := false })
  else pure taken

def vmaAllocateMemoryFromTree : KTree → Nat → VmNodeType → Nat → Option VmaBacking → Vma →
    Except Fault (Nat × Vma) :=
  vmaAllocateMemoryFromTreeWith allocVmDsNode

/-- The tree a kernel request is served from; a missing backing of an unmanaged
mapping is dereferenced. -/
def servingTree (type : VmNodeType) (backing : Option VmaBacking) : Except Fault KTree :=
  match type, backing with
  | .unmanagedMapping, none => .error .nullDereference
  | .unmanagedMapping, some given => .ok (if given.isKmmio then .mmio else .heap)
  | .hardwareMmio, _ => .ok .mmio
  | _, _ => .ok .heap

def vmaAllocateMemoryFromKtree (size : Nat) (type : VmNodeType) (flags : Nat)
    (backing : Option VmaBacking) (vma : Vma) : Except Fault (Nat × Vma) := do
  let tree ← servingTree type backing
  vmaAllocateMemoryFromTree tree size type flags backing vma

/-! ### Freeing -/

def freeFramesOf (limit : Nat) : Nat → Nat → Vmm → Except Fault Vmm
  | 0, _, _ => .error .outOfFuel
  | fuel + 1, currentVAddr, vmm =>
    if currentVAddr < limit then do
      let physical := vmm.vmmGetPhysicalFromVirtual currentVAddr
      let pmm ← physical.2.pmm.pmmFreeFrames physical.1 1
      freeFramesOf limit fuel (word (currentVAddr + 0x1000)) { physical.2 with pmm := pmm }
    else .ok vmm

/-- Undo the mapping of a region before its range is given back. -/
def unback (region : VmRegion) (vmm : Vmm) : Except Fault Vmm :=
  match region.type with
  | .hardwareMmio => .ok (vmm.vmmUnmap region.startAddr (region.size / 4096)).2
  | .fileBacked | .regular => do
    let freed ← freeFramesOf (word (region.startAddr + region.size)) (region.size / 4096 + 2)
      region.startAddr vmm
    pure (freed.vmmUnmap region.startAddr (region.size / 4096)).2
  | .unmanagedMapping | .free => .ok vmm

def isFree (vma : Vma) (node : Nat) : Bool :=
  node ≠ 0 && (vma.region node).type = .free

def removeFromTree (tree : KTree) (node : Nat) (vma : Vma) : Except Fault Vma := do
  let removed ← AvlStore.avlRemove vmCallbacks treeFuel (vma.root tree) node vma.nodes
  pure (vma.setTree tree removed.1 removed.2)

def freeVmDsNode (vma : Vma) (node : Nat) : Vma :=
  { vma with
    nodes := setStart vma.nodes node vma.freeList
    freeList := node
    freeNodeCount := word (vma.freeNodeCount + 1) }

def coalesce (tree : KTree) (nodeToFree successor predecessor : Nat) (vma : Vma) :
    Except Fault Vma :=
  let freed := vma.region nodeToFree
  let next := vma.region successor
  let previous := vma.region predecessor
  if vma.isFree successor ∧ vma.isFree predecessor then do
    let grown := vma.setRegion predecessor
      { previous with size := word (next.size + previous.size + freed.size) }
    let first ← removeFromTree tree successor grown
    let second ← removeFromTree tree nodeToFree first
    -- the successor is chained in front of the freed node
    pure (freeVmDsNode (freeVmDsNode second nodeToFree) successor)
  else if vma.isFree predecessor then do
    let grown := vma.setRegion predecessor
      { previous with size := word (previous.size + freed.size) }
    let removed ← removeFromTree tree nodeToFree grown
    pure (freeVmDsNode removed nodeToFree)
  else if vma.isFree successor then do
    let grown := vma.setRegion nodeToFree
      { freed with size := word (next.size + freed.size), type := .free }
    let removed ← removeFromTree tree successor grown
    pure (freeVmDsNode removed successor)
  else .ok (vma.setRegion nodeToFree { freed with type := .free })

def vmaFreeMemoryFromTree (tree : KTree) (startAddr : Nat) (vma : Vma) : Except Fault Vma := do
  let nodeToFree ← AvlStore.avlGetNode
    (fun store node => vmAvlCompAddr startAddr (store.data node)) treeFuel (vma.root tree) vma.nodes
  if nodeToFree = 0 then .error .nullDereference
  else do
    let vmm ← unback (vma.region nodeToFree) vma.vmm
    let unbacked : Vma := { vma with vmm := vmm }
    let successor ← AvlStore.avlNext treeFuel nodeToFree unbacked.nodes
    let predecessor ← AvlStore.avlPrev treeFuel nodeToFree unbacked.nodes
    coalesce tree nodeToFree successor predecessor unbacked

/-- Addresses outside both ranges are ignored. -/
def vmaFreeMemoryFromKtree (startAddr : Nat) (vma : Vma) : Except Fault Vma :=
  if kernelHeapStart ≤ startAddr ∧ startAddr < kernelHeapLimit then
    vmaFreeMemoryFromTree .heap startAddr vma
  else if kernelMmioStart ≤ startAddr ∧ startAddr < kernelMmioLimit then
    vmaFreeMemoryFromTree .mmio startAddr vma
  else .ok vma

def owningTree (startAddr : Nat) : KTree :=
  if kernelHeapStart ≤ startAddr then .heap else .mmio

/-! ### Initialisation -/

/-- The zeroed frame behind the first slab page. -/
def emptyStore : AvlStore VmRegion Nat :=
  { parent := fun _ => 0
    left := fun _ => 0
    right := fun _ => 0
    subtreeMaxDepth := fun _ => 0
    update := fun _ => 0
    data := fun _ => VmRegion.zero
    summary := fun _ => 0 }

/-- The first slab page, threaded: the state before the trees are built. -/
def slabStart (vmm : Vmm) : Vma :=
  let allocated := vmm.pmm.pmmAllocateFrames 1 4096
  let supplied : Vmm := { vmm with pmm := allocated.2 }
  { nodes := threadNodes kernelHeapStart (nodesPerPage - 1) emptyStore
    heapRoot := 0
    mmioRoot := 0
    freeList := kernelHeapStart
    freeNodeCount := nodesPerPage
    inReplenishCycle := false
    vmm := (supplied.vmmMap kernelHeapStart allocated.1 1 slabFlags).2
    slabPages := [kernelHeapStart] }

def vmaInit (vmm : Vmm) : Except Fault Vma := do
  let heapNode ← allocVmDsNode (slabStart vmm)
  let heapNodes := initVmDsNode heapNode.2.nodes heapNode.1 kernelHeapStart 4096 .regular
    vmAvlUpdateAddress
  let flagged := heapNodes.setData heapNode.1 { heapNodes.data heapNode.1 with flags := slabFlags }
  let remaining ← allocVmDsNode { heapNode.2 with nodes := flagged, heapRoot := heapNode.1 }
  let remainingNodes := initVmDsNode remaining.2.nodes remaining.1 (kernelHeapStart + 4096)
    (kernelHeapSize - 4096) .free vmAvlUpdateAddress
  let inserted ← AvlStore.avlInsert vmCallbacks (vmAvlCompAddr (kernelHeapStart + 4096)) treeFuel
    remaining.2.heapRoot remaining.1 remainingNodes
  let mmioNode ← allocVmDsNode (remaining.2.setTree .heap inserted.1 inserted.2)
  pure (mmioNode.2.setTree .mmio mmioNode.1
    (initVmDsNode mmioNode.2.nodes mmioNode.1 kernelMmioStart kernelMmioSize .free
      vmAvlUpdateAddress))

end Vma

end Fesos
