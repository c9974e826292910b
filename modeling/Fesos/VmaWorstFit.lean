/-
The worst fit in one region tree.

With exact cached maxima the search leads to a free region of the largest size.
A smaller request is cut from its start, and the insertion of the leftover passes
through the region that was cut, so every cached maximum is right again.  Nothing
is asked of the other tree and of the slab beyond the node that is taken.
-/

import Fesos.AvlWellFormed
import Fesos.PmmOwnership
import Fesos.VmaAllocate

set_option autoImplicit false

namespace Fesos

open BinaryTree Library
open List hiding nil

theorem vmAvlCompAddr_near {key : Nat} {region : VmRegion} (above : region.startAddr < key + 2 ^ 31)
    (below : key < region.startAddr + 2 ^ 31) :
    vmAvlCompAddr key region = (region.startAddr : Int) - key := by
  unfold vmAvlCompAddr toInt32 Int.bmod
  dsimp only
  split
  · omega
  · omega

namespace Vma

/-- A well-formed tree of regions that covers a range, with exact maxima. -/
structure RegionTree (vma : Vma) (tree : KTree) (base limit : Nat) (shape : BinaryTree Nat) :
    Prop where
  rooted : vma.root tree = rootOf shape
  linked : vma.nodes.Linked 0 shape
  distinct : shape.inorder.Nodup
  balanced : shape.Balanced
  settled : vma.nodes.Settled (AvlStore.computedBy vmAvlUpdate) shape
  installed : ∀ node ∈ shape.inorder, vma.nodes.update node = vmAvlUpdateAddress
  covers : Covers vma.startOf vma.sizeOf limit base shape.inorder

/-- At every node, `subtree_max_free_slot` is the largest free region at or below it. -/
def ExactBelow (vma : Vma) : BinaryTree Nat → Prop
  | nil => True
  | node pointer left right =>
    vma.nodes.summary pointer = vma.largestFree (node pointer left right) ∧
      vma.ExactBelow left ∧ vma.ExactBelow right

section Search

variable {vma : Vma} {shape : BinaryTree Nat} {above : Nat}

theorem size_le_largestFree {other : Nat} (member : other ∈ shape.inorder)
    (free : (vma.region other).type = .free) : vma.sizeOf other ≤ vma.largestFree shape := by
  induction shape with
  | nil => cases member
  | node pointer left right leftIh rightIh =>
    rw [largestFree_node]
    rw [inorder_node, mem_append, mem_cons] at member
    rcases member with inLeft | isPointer | inRight
    · have bound := leftIh inLeft
      omega
    · have own : vma.freeSize other = vma.sizeOf other := if_pos free
      rw [← isPointer, own]
      omega
    · have bound := rightIh inRight
      omega

theorem ExactBelow.top (exactly : vma.ExactBelow shape) :
    (vma.nodes.top shape).getD 0 = vma.largestFree shape := by
  cases shape with
  | nil => rfl
  | node pointer left right => exact exactly.1

theorem exactBelow_of_settled
    (settled : vma.nodes.Settled (AvlStore.computedBy vmAvlUpdate) shape) :
    vma.ExactBelow shape := by
  induction shape with
  | nil => trivial
  | node pointer left right leftIh rightIh =>
    obtain ⟨_, here, leftSettled, rightSettled⟩ := settled
    have leftExact := leftIh leftSettled
    have rightExact := rightIh rightSettled
    refine ⟨?_, leftExact, rightExact⟩
    rw [largestFree_node, ← leftExact.top, ← rightExact.top]
    exact here

/-- The search leads to a free region of the largest size. -/
theorem candidate_largest (linked : vma.nodes.Linked above shape)
    (exactly : vma.ExactBelow shape) (positive : 0 < vma.largestFree shape) :
    ∃ node, vma.candidate shape = some node ∧ vma.sizeOf node = vma.largestFree shape := by
  induction shape generalizing above with
  | nil => exact absurd positive (Nat.lt_irrefl 0)
  | node pointer left right leftIh rightIh =>
    obtain ⟨here, leftExact, rightExact⟩ := exactly
    obtain ⟨_, _, leftIs, _, leftLinked, rightLinked⟩ := linked
    have largest := vma.largestFree_node pointer left right
    rw [← here] at positive largest ⊢
    unfold candidate at leftIh rightIh ⊢
    rw [search]
    by_cases hit : vma.sizeOf pointer = vma.nodes.summary pointer ∧
        (vma.region pointer).type = .free
    · have equal : vmAvlCompMaxFreeSlot vma.nodes pointer = 0 := if_pos hit
      rw [if_pos equal]
      exact ⟨pointer, rfl, hit.1⟩
    have leftTop : vma.nodes.left pointer ≠ 0 →
        vma.largestFree left = vma.nodes.summary (vma.nodes.left pointer) := by
      intro present
      rw [leftIs] at present ⊢
      cases left with
      | nil => exact absurd rfl present
      | node other _ _ => exact leftExact.1.symm
    by_cases inLeft : vma.nodes.left pointer ≠ 0 ∧
        vma.nodes.summary (vma.nodes.left pointer) = vma.nodes.summary pointer
    · have greater : vmAvlCompMaxFreeSlot vma.nodes pointer = 1 :=
        (if_neg hit).trans (if_pos inLeft)
      rw [greater, if_neg (by decide), if_pos (by decide)]
      have sameTop := (leftTop inLeft.1).trans inLeft.2
      rw [← sameTop] at positive ⊢
      exact leftIh leftLinked leftExact positive
    · have less : vmAvlCompMaxFreeSlot vma.nodes pointer = -1 :=
        (if_neg hit).trans (if_neg inLeft)
      rw [less, if_neg (by decide), if_neg (by decide)]
      have notOwn : vma.freeSize pointer ≠ vma.nodes.summary pointer := by
        unfold freeSize
        split
        · rename_i free
          exact fun same => hit ⟨same, free⟩
        · omega
      have notLeft : vma.largestFree left ≠ vma.nodes.summary pointer := by
        intro same
        by_cases present : vma.nodes.left pointer ≠ 0
        · exact inLeft ⟨present, (leftTop present).symm.trans same⟩
        rw [leftIs, not_not, leftLinked.root_eq_zero] at present
        rw [present] at same
        change 0 = _ at same
        omega
      have sameTop : vma.largestFree right = vma.nodes.summary pointer := by omega
      rw [← sameTop] at positive ⊢
      exact rightIh rightLinked rightExact positive

/-- With exact maxima and no empty region, the search returns a free region of the
largest size, and NULL only if there is none. -/
theorem avlGetNode_largest_free (linked : vma.nodes.Linked 0 shape)
    (exactly : vma.ExactBelow shape) (sized : ∀ node ∈ shape.inorder, 0 < vma.sizeOf node)
    {fuel : Nat} (enough : shape.height < fuel) :
    ∃ found, AvlStore.avlGetNode vmAvlCompMaxFreeSlot fuel (rootOf shape) vma.nodes = .ok found ∧
      (found = 0 ↔ ∀ node ∈ shape.inorder, (vma.region node).type ≠ .free) ∧
      (found ≠ 0 → found ∈ shape.inorder ∧ (vma.region found).type = .free ∧
        ∀ other ∈ shape.inorder, (vma.region other).type = .free →
          vma.sizeOf other ≤ vma.sizeOf found) := by
  have searched : AvlStore.avlGetNode vmAvlCompMaxFreeSlot fuel (rootOf shape) vma.nodes =
      .ok ((vma.candidate shape).getD 0) := AvlStore.avlGetNode_search _ linked enough
  refine ⟨_, searched, ?_⟩
  by_cases empty : vma.largestFree shape = 0
  · have noneFree : ∀ node ∈ shape.inorder, (vma.region node).type ≠ .free := by
      intro node member free
      have bound := size_le_largestFree member free
      have positive := sized node member
      omega
    have missing : vma.candidate shape = none := by
      by_contra found
      obtain ⟨node, isNode⟩ := Option.ne_none_iff_exists'.mp found
      obtain ⟨member, free, _⟩ := candidate_free isNode
      exact noneFree node member free
    rw [missing]
    exact ⟨iff_of_true rfl noneFree, fun found => absurd rfl found⟩
  · obtain ⟨node, found, size⟩ := candidate_largest linked exactly (Nat.pos_of_ne_zero empty)
    obtain ⟨member, free, _⟩ := candidate_free found
    rw [found]
    refine ⟨iff_of_false (linked.ne_zero member) (fun noneFree => noneFree node member free), ?_⟩
    refine fun _ => ⟨member, free, fun other inside otherFree => ?_⟩
    rw [Option.getD_some, size]
    exact size_le_largestFree inside otherFree

end Search

/-! ### Cutting the worst fit -/

structure Served (vma after : Vma) (tree : KTree) (base limit : Nat) (shape result : BinaryTree Nat)
    (chosen new size : Nat) (type : VmNodeType) (flags : Nat) : Prop where
  formed : after.RegionTree tree base limit result
  order : ∃ front back, shape.inorder = front ++ chosen :: back ∧
    result.inorder = front ++ chosen :: new :: back
  wasFree : (vma.region chosen).type = .free
  largest : ∀ other ∈ shape.inorder, (vma.region other).type = .free →
    vma.sizeOf other ≤ vma.sizeOf chosen
  allocated : ∃ backing, after.region chosen =
    { vma.region chosen with type := type, flags := flags, size := size, backing := backing }
  holeStart : after.startOf new = vma.startOf chosen + size
  holeSize : after.sizeOf new = vma.sizeOf chosen - size
  holeFree : (after.region new).type = .free
  others : ∀ other, other ≠ chosen → other ≠ new → after.region other = vma.region other

section Serving

variable {vma : Vma} {tree : KTree} {base limit size flags chosen new : Nat}
  {shape : BinaryTree Nat} {type : VmNodeType} {backing : Option VmaBacking}

section

variable (formed : vma.RegionTree tree base limit shape)

include formed

theorem RegionTree.tall
    (pointers : ∀ node ∈ shape.inorder, node < 2 ^ 64) : shape.height < treeFuel := by
  have inside : shape.inorder.toFinset ⊆ Finset.range (2 ^ 64) := by
    intro node member
    exact Finset.mem_range.mpr (pointers node (mem_toFinset.mp member))
  have few := Finset.card_le_card inside
  rw [toFinset_card_of_nodup formed.distinct, Finset.card_range] at few
  have flat := formed.balanced.two_pow_le
  by_contra tooTall
  have rounds : treeFuel = 2 ^ 23 := rfl
  have power : 2 ^ 65 ≤ 2 ^ (shape.height / 2) := Nat.pow_le_pow_right (by decide) (by omega)
  omega

theorem RegionTree.taken
    (absent : new ∉ shape.inorder) : (vma.taken new).RegionTree tree base limit shape := by
  have same := clearNode_elsewhere vma.nodes new
  have apart : ∀ other ∈ shape.inorder, other ∉ [new] := apart_singleton absent
  constructor
  · cases tree <;> exact formed.rooted
  · exact same.linked apart formed.linked
  · exact formed.distinct
  · exact formed.balanced
  · exact same.settled apart formed.settled
  · intro node member
    exact (same.update node (apart node member)).trans (formed.installed node member)
  · exact formed.covers.congr
      (fun node member => congrArg VmRegion.startAddr (same.data node (apart node member)))
      (fun node member => congrArg VmRegion.size (same.data node (apart node member)))

theorem RegionTree.bounds {node : Nat}
    (member : node ∈ shape.inorder) : vma.startOf node + vma.sizeOf node ≤ limit := by
  have within := formed.covers.inside member
  have total := formed.covers.sum_eq
  omega

/-- The chosen region is cut in two and the leftover inserted. -/
theorem RegionTree.split
    (member : chosen ∈ shape.inorder) (nonzero : new ≠ 0) (absent : new ∉ shape.inorder)
    (tall : shape.height < treeFuel) (range : limit ≤ 2 ^ 64) (small : vma.sizeOf chosen < 2 ^ 64)
    (positive : 0 < size) (smaller : size < vma.sizeOf chosen)
    (near : ∀ other ∈ shape.inorder, vma.startOf other < vma.startOf chosen + size + 2 ^ 31 ∧
      vma.startOf chosen + size < vma.startOf other + 2 ^ 31) (type : VmNodeType) (flags : Nat) :
    ∃ nodes result, AvlStore.avlInsert vmCallbacks (vmAvlCompAddr (vma.startOf chosen + size))
          treeFuel (vma.root tree) new (vma.cut new chosen size type flags).nodes =
        .ok (rootOf result, nodes) ∧
      (vma.setTree tree (rootOf result) nodes).RegionTree tree base limit result ∧
      (∃ front back, shape.inorder = front ++ chosen :: back ∧
        result.inorder = front ++ chosen :: new :: back) ∧
      Halved vma (vma.setTree tree (rootOf result) nodes) new chosen size type flags := by
  obtain ⟨front, back, order⟩ := append_of_mem member
  have covers := formed.covers
  rw [order] at covers
  obtain ⟨earlier, later⟩ := covers.sides
  have room := formed.bounds member
  have different : chosen ≠ new := fun same => absent (same ▸ member)
  have inTree : ∀ other, other ∈ front ++ [chosen] ∨ other ∈ back → other ∈ shape.inorder := by
    intro other
    rw [order, ← mem_append, append_assoc]
    exact id
  have signs : ∀ other ∈ shape.inorder, vmAvlCompAddr (vma.startOf chosen + size)
      (vma.region other) = (vma.startOf other : Int) - (vma.startOf chosen + size : Nat) :=
    fun other inside => vmAvlCompAddr_near (near other inside).1 (near other inside).2
  obtain ⟨nodes, run, linked, settled, newOrder, same, addressed⟩ := cut_inserted
    (AvlStore.computedBy_callback vmAvlUpdate) formed.linked formed.distinct formed.settled formed.installed order nonzero
    absent (Nat.le_of_lt tall)
    (fun other inFront => by
      rw [signs other (inTree other (Or.inl inFront))]
      rcases mem_append.mp inFront with before | isChosen
      · have ends := earlier other before
        omega
      · rw [mem_singleton.mp isChosen]
        omega)
    (fun other inBack => by
      rw [signs other (inTree other (Or.inr inBack))]
      have starts := later other inBack
      omega)
    size type flags
  have members := insertTree_perm
    ((vma.cut new chosen size type flags).goesLeft (vma.startOf chosen + size)) new shape
  have balanced := (insertTree_balanced
    ((vma.cut new chosen size type flags).goesLeft (vma.startOf chosen + size)) new
    formed.balanced).1
  generalize insertTree ((vma.cut new chosen size type flags).goesLeft (vma.startOf chosen + size))
    new shape = result at *
  have regions : ∀ other, (vma.setTree tree (rootOf result) nodes).region other =
      (vma.cut new chosen size type flags).region other := by
    intro other
    unfold region
    rw [setTree_nodes, same.data]
  have halved := (cut_halved vma nonzero different (by omega) small smaller type flags).regions
    regions (setTree_slabPages _ _ _ _)
  refine ⟨nodes, result, ?_, ⟨?_, ?_, ?_, balanced, ?_, ?_, ?_⟩, ⟨front, back, order, newOrder⟩, halved⟩
  · rw [formed.rooted]
    exact run
  · rw [setTree_root, if_pos rfl]
  · rw [setTree_nodes]
    exact linked
  · exact members.nodup_iff.mpr (nodup_cons.mpr ⟨absent, formed.distinct⟩)
  · rw [setTree_nodes]
    exact settled
  · intro other inResult
    rw [setTree_nodes, same.update]
    exact addressed other (members.mem_iff.mp inResult)
  · rw [newOrder]
    have others := halved.rest (order ▸ formed.distinct) (order ▸ absent)
    refine covers.split (Nat.le_of_lt smaller) ?_ ?_ halved.newStart halved.newSize
      (fun other inside => congrArg VmRegion.startAddr (others other inside))
      (fun other inside => congrArg VmRegion.size (others other inside))
    · rw [startOf, halved.atNode]
      rfl
    · rw [sizeOf, halved.atNode]

end

theorem back_served (served : type = .regular ∨ backing ≠ none) (size flags node : Nat) (vma : Vma) :
    ∃ after, back size type flags backing node vma = .ok after := by
  unfold back
  split
  · exact ⟨_, rfl⟩
  · exact ⟨_, rfl⟩
  · rename_i notRegular
    rcases served with regular | present
    · exact absurd regular notRegular
    · exact absurd rfl present
  · exact ⟨_, rfl⟩
  · exact ⟨_, rfl⟩
  · exact ⟨_, rfl⟩

/-- A recorded backing is not part of the tree. -/
theorem RegionTree.backed (formed : vma.RegionTree tree base limit shape) (node : Nat)
    (recorded : VmaBacking) (vmm : Vmm) :
    ({ vma.setRegion node { vma.region node with backing := recorded } with vmm := vmm } :
      Vma).RegionTree tree base limit shape := by
  have same := setRegion_span { vma.region node with backing := recorded } rfl rfl
  constructor
  · cases tree <;> exact formed.rooted
  · exact formed.linked.transport (fun _ _ => rfl) (fun _ _ => rfl) (fun _ _ => rfl)
  · exact formed.distinct
  · exact formed.balanced
  · apply formed.settled.setData
    intro frames left right is
    have settled := formed.settled
    rw [is] at settled
    exact (settled.of_plug frames).1.2.1
  · exact formed.installed
  · exact formed.covers.congr (fun other _ => (same other).1) (fun other _ => (same other).2)

/-- A request that the largest free region exceeds is cut from the start of that
region, and the tree is as good as before. -/
theorem vmaAllocateMemoryFromTree_splits (formed : vma.RegionTree tree base limit shape)
    (range : limit ≤ 2 ^ 64) (sizes : ∀ node ∈ shape.inorder, vma.sizeOf node < 2 ^ 64)
    (pointers : ∀ node ∈ shape.inorder, node < 2 ^ 64)
    (counter : vma.freeNodeCount < 2 ^ 64) (enough : minimumAvailableNodes < vma.freeNodeCount)
    (nonzero : vma.freeList ≠ 0) (absent : vma.freeList ∉ shape.inorder) (busy : type ≠ .free)
    (served : type = .regular ∨ backing ≠ none) (positive : 0 < size)
    (smaller : ∃ node ∈ shape.inorder, (vma.region node).type = .free ∧ size < vma.sizeOf node)
    (near : ∀ chosen ∈ vma.candidate shape, ∀ other ∈ shape.inorder,
      vma.startOf other < vma.startOf chosen + size + 2 ^ 31 ∧
        vma.startOf chosen + size < vma.startOf other + 2 ^ 31) :
    ∃ chosen after result,
      vmaAllocateMemoryFromTree tree size type flags backing vma =
        .ok (vma.startOf chosen, after) ∧
      Served vma after tree base limit shape result chosen vma.freeList size type flags := by
  obtain ⟨roomy, roomyIn, roomyFree, roomySize⟩ := smaller
  have bound := size_le_largestFree roomyIn roomyFree
  obtain ⟨chosen, found, chosenSize⟩ :=
    candidate_largest formed.linked (exactBelow_of_settled formed.settled) (by omega)
  obtain ⟨member, free, _⟩ := candidate_free found
  have tall := formed.tall pointers
  have worst : vma.worstFit tree = .ok chosen := by
    unfold worstFit
    rw [formed.rooted, AvlStore.avlGetNode_search _ formed.linked tall]
    exact congrArg (fun node => Except.ok (Option.getD node 0)) found
  have rest : wordSub vma.freeNodeCount 1 = vma.freeNodeCount - 1 :=
    wordSub_of_le (by omega) counter
  have supply := allocVmDsNode_taken (if_neg nonzero) (rest ▸ Nat.le_sub_one_of_lt enough)
  have taken := formed.taken absent
  have kept : ∀ other, other ≠ vma.freeList →
      (vma.taken vma.freeList).region other = vma.region other := by
    intro other different
    exact (clearNode_elsewhere vma.nodes vma.freeList).data other
      (fun inside => different (mem_singleton.mp inside))
  have keptIn : ∀ other ∈ shape.inorder,
      (vma.taken vma.freeList).region other = vma.region other := by
    intro other inside
    apply kept
    rintro rfl
    exact absent inside
  have startSame : (vma.taken vma.freeList).startOf chosen = vma.startOf chosen :=
    congrArg VmRegion.startAddr (keptIn chosen member)
  have sizeSame : (vma.taken vma.freeList).sizeOf chosen = vma.sizeOf chosen :=
    congrArg VmRegion.size (keptIn chosen member)
  have room := formed.bounds member
  obtain ⟨nodes, result, inserted, split, order, halved⟩ := taken.split member nonzero absent tall
    range (by rw [sizeSame]; exact sizes chosen member) positive (by omega)
    (fun other inside => by
      have otherStart : (vma.taken vma.freeList).startOf other = vma.startOf other :=
        congrArg VmRegion.startAddr (keptIn other inside)
      rw [otherStart, startSame]
      exact near chosen found other inside) type flags
  have key : word ((vma.taken vma.freeList).startOf chosen + size) =
      (vma.taken vma.freeList).startOf chosen + size := word_of_lt (by omega)
  have different : ¬ size = (vma.region chosen).size := by
    change ¬ size = vma.sizeOf chosen
    omega
  rw [← key] at inserted
  have carved := carve_cut different supply inserted
  obtain ⟨after, backed⟩ := back_served served size flags chosen
    ((vma.taken vma.freeList).setTree tree (rootOf result) nodes)
  obtain ⟨recorded, vmm, state⟩ := back_ok backed
  have regions : ∀ other, after.region other = if other = chosen then
      { ((vma.taken vma.freeList).setTree tree (rootOf result) nodes).region chosen with
        backing := recorded }
      else ((vma.taken vma.freeList).setTree tree (rootOf result) nodes).region other := by
    intro other
    rw [state]
    exact setRegion_region _ chosen other _
  have atChosen : after.region chosen =
      { vma.region chosen with type := type, flags := flags, size := size, backing := recorded } := by
    rw [regions, if_pos rfl, halved.atNode, keptIn chosen member]
  have atNew : after.region vma.freeList =
      ((vma.taken vma.freeList).setTree tree (rootOf result) nodes).region vma.freeList := by
    rw [regions, if_neg (fun same : vma.freeList = chosen => absent (same ▸ member))]
  refine ⟨chosen, after, result, ?_, ?_⟩
  · unfold vmaAllocateMemoryFromTree vmaAllocateMemoryFromTreeWith
    rw [if_neg busy, worst, ok_bind, if_neg (formed.linked.ne_zero member), carved, ok_bind, backed,
      ok_bind, atChosen]
    rfl
  · constructor
    · rw [state]
      exact split.backed chosen recorded vmm
    · exact order
    · exact free
    · intro other inside otherFree
      rw [chosenSize]
      exact size_le_largestFree inside otherFree
    · exact ⟨recorded, atChosen⟩
    · rw [startOf, atNew, ← startSame]
      exact halved.newStart
    · rw [sizeOf, atNew, ← sizeSame]
      exact halved.newSize
    · rw [atNew]
      exact halved.newFree
    · intro other notChosen notNew
      rw [regions, if_neg notChosen, halved.others other notChosen notNew, kept other notNew]

end Serving

def roomyHeap : Vma :=
  { nodes := AvlStore.holding (BinaryTree.node 2 (BinaryTree.node 1 nil nil) nil) vmAvlUpdateAddress
      (fun node =>
        if node = 1 then ⟨kernelHeapStart, 4096, .regular, slabFlags, ⟨0, 0⟩⟩
        else ⟨kernelHeapStart + 4096, 12288, .free, 0, ⟨0, 0⟩⟩)
      (fun node => if node = 1 then 0 else 12288)
    heapRoot := 2
    mmioRoot := 0
    freeList := 3
    freeNodeCount := 6
    inReplenishCycle := false
    vmm := { pmm := eightFrames, pml4 := 0, stores := [] }
    slabPages := [] }

theorem roomyHeap_formed : roomyHeap.RegionTree .heap kernelHeapStart (kernelHeapStart + 16384)
    (BinaryTree.node 2 (BinaryTree.node 1 nil nil) nil) := by
  constructor
  · rfl
  · decide
  · decide
  · decide
  · exact ⟨rfl, rfl, ⟨rfl, rfl, trivial, trivial⟩, trivial⟩
  · exact fun _ _ => rfl
  · exact ⟨rfl, rfl, rfl⟩

theorem avlGetNode_largest_free_roomyHeap : ∃ found,
    AvlStore.avlGetNode vmAvlCompMaxFreeSlot treeFuel 2 roomyHeap.nodes = .ok found ∧
    (found ≠ 0 → (roomyHeap.region found).type = .free) := by
  obtain ⟨found, run, _, largest⟩ := avlGetNode_largest_free roomyHeap_formed.linked
    (exactBelow_of_settled roomyHeap_formed.settled) (by decide) (by decide : _ < treeFuel)
  exact ⟨found, run, fun real => (largest real).2.1⟩

theorem vmaAllocateMemoryFromTree_splits_roomyHeap :
    ∃ chosen after result,
      vmaAllocateMemoryFromTree .heap 8192 .regular 0 none roomyHeap =
        .ok (roomyHeap.startOf chosen, after) ∧
      Served roomyHeap after .heap kernelHeapStart (kernelHeapStart + 16384)
        (BinaryTree.node 2 (BinaryTree.node 1 nil nil) nil) result chosen roomyHeap.freeList 8192
        .regular 0 := by
  have found : roomyHeap.candidate (BinaryTree.node 2 (BinaryTree.node 1 nil nil) nil) = some 2 := rfl
  apply vmaAllocateMemoryFromTree_splits roomyHeap_formed
  · decide
  · decide
  · decide
  · decide
  · decide
  · decide
  · decide
  · decide
  · exact Or.inl rfl
  · decide
  · exact ⟨2, by decide, rfl, by decide⟩
  · rw [found]
    intro chosen isTwo
    cases isTwo
    decide

end Vma

end Fesos
