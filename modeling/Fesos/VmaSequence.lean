/-
The virtual memory areas over ordered sequences.

vma.c again, with the tree operations replaced by what avl.h documents: a tree is
the sequence of its nodes, an insertion puts a node into the sequence, a removal
takes it out, and next and previous are its neighbours.  Which node a search leads
to and where an insertion puts its node is left to the caller (`TreeAnswer`), so
every implementation of the tree is covered.  The nodes themselves stay where
vma.c keeps them, in the slab pages it carves out of the heap; page tables and
frames are left out, since no region depends on them.
-/

import Fesos.VmaLayout
import Fesos.Library.Runs

set_option autoImplicit false

namespace Fesos

open Library

structure VmaSequences where
  regions : Nat → VmRegion
  order : KTree → List Nat
  freeList : Nat
  freeNodeCount : Nat
  inReplenishCycle : Bool
  slabPages : List Nat

/-- What the tree code answers during a call: the node `avl_get_node` leads to, 0
for none, and the place where `avl_insert` puts a new node. -/
structure TreeAnswer where
  found : Nat
  position : Nat
  deriving DecidableEq, Repr

def nodeAfter (node : Nat) : List Nat → Nat
  | [] => 0
  | first :: rest => if first = node then rest.headD 0 else nodeAfter node rest

namespace VmaSequences

def setRegion (vma : VmaSequences) (node : Nat) (region : VmRegion) : VmaSequences :=
  { vma with regions := Function.update vma.regions node region }

def setOrder (vma : VmaSequences) (tree : KTree) (nodes : List Nat) : VmaSequences :=
  { vma with order := Function.update vma.order tree nodes }

def insert (tree : KTree) (position node : Nat) (vma : VmaSequences) : VmaSequences :=
  vma.setOrder tree ((vma.order tree).take position ++ node :: (vma.order tree).drop position)

def remove (tree : KTree) (node : Nat) (vma : VmaSequences) : VmaSequences :=
  vma.setOrder tree ((vma.order tree).erase node)

/-! ### Allocation -/

def takeNode (vma : VmaSequences) : Except Fault (Nat × VmaSequences) :=
  if vma.freeList = 0 then .error .nullDereference
  else
    .ok (vma.freeList,
      { vma with
        regions := Function.update vma.regions vma.freeList VmRegion.zero
        freeList := (vma.regions vma.freeList).startAddr
        freeNodeCount := wordSub vma.freeNodeCount 1 })

def initVmDsNode (node start size : Nat) (type : VmNodeType) (vma : VmaSequences) : VmaSequences :=
  vma.setRegion node { vma.regions node with startAddr := start, size := size, type := type }

def carve (allocNode : VmaSequences → Except Fault (Nat × VmaSequences)) (tree : KTree)
    (position size : Nat) (type : VmNodeType) (flags nodeForRequest : Nat) (vma : VmaSequences) :
    Except Fault VmaSequences :=
  if size = (vma.regions nodeForRequest).size then
    .ok (vma.setRegion nodeForRequest
      { vma.regions nodeForRequest with type := type, flags := flags })
  else do
    let leftover ← allocNode vma
    let chosen := leftover.2.regions nodeForRequest
    let prepared := leftover.2.initVmDsNode leftover.1 (word (chosen.startAddr + size))
      (wordSub chosen.size size) .free
    let shrunk := prepared.setRegion nodeForRequest
      { prepared.regions nodeForRequest with type := type, flags := flags, size := size }
    pure (shrunk.insert tree position leftover.1)

def back (type : VmNodeType) (backing : Option VmaBacking) (node : Nat) (vma : VmaSequences) :
    Except Fault VmaSequences :=
  let old := vma.regions node
  match type, backing with
  | .free, _ => .ok vma
  | .regular, _ => .ok vma
  | _, none => .error .nullDereference
  | .hardwareMmio, some given =>
    .ok (vma.setRegion node { old with backing := { old.backing with first := given.first } })
  | .fileBacked, some given =>
    .ok (vma.setRegion node { old with backing := ⟨given.first, given.first⟩ })
  | .unmanagedMapping, some given =>
    .ok (vma.setRegion node
      { old with backing :=
          { old.backing with
            first := given.first % 2 ^ 32 + old.backing.first / 2 ^ 32 * 2 ^ 32 } })

def vmaAllocateMemoryFromTreeWith (allocNode : VmaSequences → Except Fault (Nat × VmaSequences))
    (answer : TreeAnswer) (tree : KTree) (size : Nat) (type : VmNodeType) (flags : Nat)
    (backing : Option VmaBacking) (vma : VmaSequences) : Except Fault (Nat × VmaSequences) :=
  if type = .free then .ok (0, vma)
  else if answer.found = 0 then .ok (0, vma)
  else do
    let carved ← carve allocNode tree answer.position size type flags answer.found vma
    let backed ← back type backing answer.found carved
    pure ((backed.regions answer.found).startAddr, backed)

/-- Chain the first `count` nodes of a page, each to the one behind it.  No node is
written twice, so the other fields are read from the old contents. -/
def threadNodes (page : Nat) : Nat → (Nat → VmRegion) → (Nat → VmRegion)
  | 0, regions => regions
  | count + 1, regions =>
    Function.update (threadNodes page count regions) (page + 88 * count)
      { regions (page + 88 * count) with startAddr := page + 88 * (count + 1) }

def addPage (page : Nat) (vma : VmaSequences) : VmaSequences :=
  let last := page + 88 * (nodesPerPage - 1)
  { vma with
    regions := Function.update (threadNodes page (nodesPerPage - 1) vma.regions) last
      { vma.regions last with startAddr := vma.freeList }
    freeNodeCount := word (vma.freeNodeCount + nodesPerPage)
    freeList := page
    slabPages := page :: vma.slabPages }

def replenishSlabFromTree (answer : TreeAnswer) (vma : VmaSequences) :
    Except Fault VmaSequences := do
  let page ← vmaAllocateMemoryFromTreeWith takeNode answer .heap 4096 .regular slabFlags none vma
  if page.1 = 0 then .error .nullDereference else pure (page.2.addPage page.1)

def allocVmDsNode (answer : TreeAnswer) (vma : VmaSequences) :
    Except Fault (Nat × VmaSequences) := do
  let taken ← takeNode vma
  if taken.2.freeNodeCount < minimumAvailableNodes ∧ taken.2.inReplenishCycle = false then do
    let replenished ← replenishSlabFromTree answer { taken.2 with inReplenishCycle := true }
    pure (taken.1, { replenished with inReplenishCycle := false })
  else pure taken

/-- The second answer is for a replenishment, should there be one. -/
def vmaAllocateMemoryFromKtree (answer second : TreeAnswer) (size : Nat) (type : VmNodeType)
    (flags : Nat) (backing : Option VmaBacking) (vma : VmaSequences) :
    Except Fault (Nat × VmaSequences) := do
  let tree ← Vma.servingTree type backing
  vmaAllocateMemoryFromTreeWith (allocVmDsNode second) answer tree size type flags backing vma

/-! ### Freeing -/

def isFree (vma : VmaSequences) (node : Nat) : Bool :=
  node ≠ 0 && (vma.regions node).type = .free

def freeVmDsNode (vma : VmaSequences) (node : Nat) : VmaSequences :=
  { vma with
    regions := Function.update vma.regions node { vma.regions node with startAddr := vma.freeList }
    freeList := node
    freeNodeCount := word (vma.freeNodeCount + 1) }

def coalesce (tree : KTree) (nodeToFree successor predecessor : Nat) (vma : VmaSequences) :
    VmaSequences :=
  let freed := vma.regions nodeToFree
  let next := vma.regions successor
  let previous := vma.regions predecessor
  if vma.isFree successor ∧ vma.isFree predecessor then
    let grown := vma.setRegion predecessor
      { previous with size := word (next.size + previous.size + freed.size) }
    freeVmDsNode (freeVmDsNode ((grown.remove tree successor).remove tree nodeToFree) nodeToFree)
      successor
  else if vma.isFree predecessor then
    let grown := vma.setRegion predecessor
      { previous with size := word (previous.size + freed.size) }
    freeVmDsNode (grown.remove tree nodeToFree) nodeToFree
  else if vma.isFree successor then
    let grown := vma.setRegion nodeToFree
      { freed with size := word (next.size + freed.size), type := .free }
    freeVmDsNode (grown.remove tree successor) successor
  else vma.setRegion nodeToFree { freed with type := .free }

def vmaFreeMemoryFromTree (answer : TreeAnswer) (tree : KTree) (vma : VmaSequences) :
    Except Fault VmaSequences :=
  if answer.found = 0 then .error .nullDereference
  else
    .ok (coalesce tree answer.found (nodeAfter answer.found (vma.order tree))
      (nodeAfter answer.found (vma.order tree).reverse) vma)

def vmaFreeMemoryFromKtree (answer : TreeAnswer) (startAddr : Nat) (vma : VmaSequences) :
    Except Fault VmaSequences :=
  if kernelHeapStart ≤ startAddr ∧ startAddr < kernelHeapLimit then
    vmaFreeMemoryFromTree answer .heap vma
  else if kernelMmioStart ≤ startAddr ∧ startAddr < kernelMmioLimit then
    vmaFreeMemoryFromTree answer .mmio vma
  else .ok vma

/-! ### Initialisation -/

/-- The first slab page, threaded.  The memory behind it holds anything, and the
last node of the page is not given a link. -/
def slabStart (memory : Nat → VmRegion) : VmaSequences :=
  { regions := threadNodes kernelHeapStart (nodesPerPage - 1) memory
    order := fun _ => []
    freeList := kernelHeapStart
    freeNodeCount := nodesPerPage
    inReplenishCycle := false
    slabPages := [kernelHeapStart] }

/-- The nodes of the two heap regions and of the MMIO range. -/
def vmaInit (memory : Nat → VmRegion) : Except Fault VmaSequences := do
  let heapNode ← takeNode (slabStart memory)
  let first := heapNode.2.initVmDsNode heapNode.1 kernelHeapStart 4096 .regular
  let flagged := first.setRegion heapNode.1 { first.regions heapNode.1 with flags := slabFlags }
  let remaining ← takeNode (flagged.insert .heap 0 heapNode.1)
  let second := remaining.2.initVmDsNode remaining.1 (kernelHeapStart + 4096)
    (kernelHeapSize - 4096) .free
  let mmioNode ← takeNode (second.insert .heap 1 remaining.1)
  pure ((mmioNode.2.initVmDsNode mmioNode.1 kernelMmioStart kernelMmioSize .free).insert .mmio 0
    mmioNode.1)

end VmaSequences

end Fesos
