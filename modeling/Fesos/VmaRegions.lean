/-
The regions the nodes record.

`Geometry` is the purpose of the trees: in address order the regions tile the
tree's range, in whole pages, and the slab pages are among the regions in use.
`Sound` joins it to the layout.  `InUse` is the abstract state of the allocator,
the set of ranges handed out.
-/

import Fesos.VmaLayout
import Fesos.Library.Tiling

set_option autoImplicit false

namespace Fesos

open BinaryTree Library Function

namespace Vma

def treeStart : KTree → Nat
  | .heap => kernelHeapStart
  | .mmio => kernelMmioStart

def treeLimit : KTree → Nat
  | .heap => kernelHeapLimit
  | .mmio => kernelMmioLimit

theorem treeLimit_eq (tree : KTree) : treeLimit tree = treeStart tree + 2 ^ 34 := by
  cases tree <;> rfl

theorem treeLimit_lt (tree : KTree) : treeLimit tree < 2 ^ 64 := by
  cases tree <;> decide

theorem treeStart_pos (tree : KTree) : 0 < treeStart tree := by
  cases tree <;> decide

def InUse (vma : Vma) (shape : Shapes) (tree : KTree) (start size : Nat) : Prop :=
  ∃ node ∈ (shape tree).inorder, vma.startOf node = start ∧ vma.sizeOf node = size ∧
    (vma.region node).type ≠ .free

structure Geometry (vma : Vma) (shape : Shapes) : Prop where
  tiles : ∀ tree, Tiles vma.startOf vma.sizeOf (treeLimit tree) (treeStart tree)
    (shape tree).inorder
  pages : ∀ tree, ∀ node ∈ (shape tree).inorder, vma.sizeOf node % 4096 = 0
  slabs : ∀ page ∈ vma.slabPages, vma.InUse shape .heap page 4096

/-- `goal` is what every cached summary has to meet. -/
structure Sound (goal : VmRegion → Option Nat → Option Nat → Nat → Prop) (vma : Vma)
    (shape : Shapes) (chain loose : List Nat) : Prop where
  layout : vma.Layout shape chain loose
  geometry : vma.Geometry shape
  settled : ∀ tree, vma.nodes.Settled goal (shape tree)

section Facts

variable {vma : Vma} {shape : Shapes}

section

variable (geometry : vma.Geometry shape)

include geometry

theorem Geometry.bounds {tree : KTree} {node : Nat}
    (member : node ∈ (shape tree).inorder) :
    treeStart tree ≤ vma.startOf node ∧ 4096 ≤ vma.sizeOf node ∧
      vma.startOf node + vma.sizeOf node ≤ treeLimit tree := by
  have inRange := (geometry.tiles tree).bounds member
  have whole := geometry.pages tree node member
  omega

theorem Geometry.length_le (tree : KTree) :
    (shape tree).inorder.length ≤ 2 ^ 22 := by
  have room := (geometry.tiles tree).length_mul_le 4096
    (fun node member => (geometry.bounds member).2.1)
  rw [treeLimit_eq] at room
  omega

theorem Geometry.short (tree : KTree) :
    (shape tree).inorder.length + 2 < treeFuel := by
  have few := geometry.length_le tree
  unfold treeFuel
  omega

theorem Geometry.eq_of_start {tree : KTree} {left right : Nat}
    (leftIn : left ∈ (shape tree).inorder) (rightIn : right ∈ (shape tree).inorder)
    (same : vma.startOf left = vma.startOf right) : left = right := by
  have leftSize := (geometry.bounds leftIn).2.1
  have rightSize := (geometry.bounds rightIn).2.1
  refine (geometry.tiles tree).eq_of_overlap leftIn rightIn (vma.startOf left) ?_ ?_
  · omega
  · omega

theorem Geometry.slab_bounds {page : Nat}
    (member : page ∈ vma.slabPages) :
    kernelHeapStart ≤ page ∧ page + 4096 ≤ kernelHeapLimit := by
  obtain ⟨node, inHeap, startIs, sizeIs, _⟩ := geometry.slabs page member
  have inRange := geometry.bounds inHeap
  rw [startIs, sizeIs] at inRange
  exact ⟨inRange.1, inRange.2.2⟩

theorem Geometry.node_bounds {node : Nat}
    (located : vma.InSlab node) : kernelHeapStart ≤ node ∧ node < kernelHeapLimit := by
  obtain ⟨page, member, index, small, is⟩ := located
  have inRange := geometry.slab_bounds member
  have perPage : nodesPerPage = 46 := rfl
  omega

theorem Geometry.node_not_free {node region : Nat}
    (located : vma.InSlab node) (member : region ∈ (shape .heap).inorder)
    (free : (vma.region region).type = .free) :
    ¬ (vma.startOf region ≤ node ∧ node < vma.startOf region + vma.sizeOf region) := by
  intro inside
  obtain ⟨page, inSlabs, index, small, is⟩ := located
  obtain ⟨slab, inHeap, startIs, sizeIs, busy⟩ := geometry.slabs page inSlabs
  have perPage : nodesPerPage = 46 := rfl
  have same := (geometry.tiles .heap).eq_of_overlap inHeap member node (by omega) inside
  rw [same] at busy
  exact busy free

end

variable {chain loose : List Nat}

theorem Layout.chain_few (layout : vma.Layout shape chain loose) (geometry : vma.Geometry shape) :
    chain.length ≤ 2 ^ 34 := by
  have nodup := (nodup_nodesOf.mp layout.separate).2.1
  have inside : chain.toFinset ⊆ Finset.Ico kernelHeapStart kernelHeapLimit := by
    intro node member
    rw [List.mem_toFinset] at member
    rw [Finset.mem_Ico]
    exact geometry.node_bounds (layout.located node (mem_nodesOf.mpr (Or.inr (Or.inl member))))
  have bound := Finset.card_le_card inside
  rw [List.toFinset_card_of_nodup nodup, Nat.card_Ico] at bound
  exact bound

theorem Layout.ne_zero (layout : vma.Layout shape chain loose) (geometry : vma.Geometry shape)
    {node : Nat} (member : node ∈ nodesOf shape chain loose) : node ≠ 0 := by
  have inRange := geometry.node_bounds (layout.located node member)
  have positive : 0 < kernelHeapStart := by decide
  omega

theorem InUse.transport {after : Vma} {tree : KTree} {start size : Nat}
    (regions : ∀ node ∈ (shape tree).inorder, after.region node = vma.region node) :
    after.InUse shape tree start size ↔ vma.InUse shape tree start size := by
  unfold InUse startOf sizeOf
  constructor
  · rintro ⟨node, member, facts⟩
    rw [regions node member] at facts
    exact ⟨node, member, facts⟩
  · rintro ⟨node, member, facts⟩
    refine ⟨node, member, ?_⟩
    rw [regions node member]
    exact facts

theorem Geometry.transport {after : Vma} (geometry : vma.Geometry shape)
    (regions : ∀ tree, ∀ node ∈ (shape tree).inorder, after.region node = vma.region node)
    (slabs : after.slabPages = vma.slabPages) : after.Geometry shape := by
  have starts : ∀ tree, ∀ node ∈ (shape tree).inorder, after.startOf node = vma.startOf node :=
    fun tree node member => congrArg VmRegion.startAddr (regions tree node member)
  have sizes : ∀ tree, ∀ node ∈ (shape tree).inorder, after.sizeOf node = vma.sizeOf node :=
    fun tree node member => congrArg VmRegion.size (regions tree node member)
  refine ⟨fun tree => (geometry.tiles tree).congr (starts tree) (sizes tree), ?_, ?_⟩
  · intro tree node member
    rw [sizes tree node member]
    exact geometry.pages tree node member
  · intro page member
    rw [slabs] at member
    exact (InUse.transport (regions .heap)).mpr (geometry.slabs page member)

section Replace

variable {after : Vma} {tree : KTree} {result : BinaryTree Nat}

/-- One tree is replaced; its new regions tile, and the slab pages stay. -/
theorem Geometry.replace (geometry : vma.Geometry shape)
    (others : ∀ other, other ≠ tree → ∀ node ∈ (shape other).inorder,
      after.region node = vma.region node)
    (slabs : after.slabPages = vma.slabPages)
    (tiles : Tiles after.startOf after.sizeOf (treeLimit tree) (treeStart tree) result.inorder)
    (pages : ∀ node ∈ result.inorder, after.sizeOf node % 4096 = 0)
    (kept : ∀ node ∈ (shape tree).inorder, vma.startOf node ∈ vma.slabPages →
      (vma.region node).type ≠ .free →
      node ∈ result.inorder ∧ after.region node = vma.region node) :
    after.Geometry (Function.update shape tree result) := by
  refine ⟨?_, ?_, ?_⟩
  · intro other
    by_cases here : other = tree
    · rw [here, update_self]
      exact tiles
    rw [update_of_ne here]
    exact (geometry.tiles other).congr
      (fun node member => congrArg VmRegion.startAddr (others other here node member))
      (fun node member => congrArg VmRegion.size (others other here node member))
  · intro other node member
    by_cases here : other = tree
    · rw [here, update_self] at member
      exact pages node member
    rw [update_of_ne here] at member
    have same : after.sizeOf node = vma.sizeOf node :=
      congrArg VmRegion.size (others other here node member)
    rw [same]
    exact geometry.pages other node member
  · intro page member
    rw [slabs] at member
    obtain ⟨node, inHeap, used⟩ := geometry.slabs page member
    have stays : node ∈ (Function.update shape tree result .heap).inorder ∧
        after.region node = vma.region node := by
      by_cases here : KTree.heap = tree
      · rw [← here] at kept ⊢
        rw [update_self]
        exact kept node inHeap (used.1 ▸ member) used.2.2
      · rw [update_of_ne here]
        exact ⟨inHeap, others .heap here node inHeap⟩
    refine ⟨node, stays.1, ?_⟩
    rw [startOf, sizeOf, stays.2]
    exact used

theorem InUse.other (others : ∀ other, other ≠ tree → ∀ node ∈ (shape other).inorder,
      after.region node = vma.region node) {owner : KTree} (different : owner ≠ tree)
    {start size : Nat} :
    after.InUse (Function.update shape tree result) owner start size ↔
      vma.InUse shape owner start size := by
  rw [← InUse.transport (others owner different)]
  unfold InUse
  rw [update_of_ne different]

end Replace

end Facts

end Vma

end Fesos
