/-
What an allocation does to the region trees, wherever the comparisons put the
leftover.

The states here only have their links, depths and free list in order.  The
truncated comparison may leave a tree whose regions are not sorted, and the cached
maxima may hold anything; both are kept apart from the links, so that a call can be
followed exactly to its end.
-/

import Fesos.VmaMisfree
import Fesos.VmaSearch

set_option autoImplicit false

namespace Fesos

open BinaryTree Library Function
open List hiding nil after

namespace Vma

def AnySummary (_region : VmRegion) (_left _right : Option Nat) (_summary : Nat) : Prop := True

structure Wired (vma : Vma) (shape : Shapes) (chain loose : List Nat) : Prop where
  layout : vma.Layout shape chain loose
  depths : ∀ tree, vma.nodes.Settled AnySummary (shape tree)

section Wired

variable {vma after : Vma} {shape : Shapes} {chain loose : List Nat} {tree : KTree}
  {node new : Nat} {goal : SummaryGoal VmRegion Nat}

theorem Sound.wired (sound : vma.Sound goal shape chain loose) :
    vma.Wired shape chain loose where
  layout := sound.layout
  depths := fun tree => (sound.settled tree).weaken (fun _ _ _ _ _ _ => trivial)

theorem Wired.sameNodes (wired : vma.Wired shape chain loose) (nodes : after.nodes = vma.nodes)
    (roots : ∀ tree, after.root tree = vma.root tree := by intro tree; cases tree <;> rfl)
    (list : after.freeList = vma.freeList := by rfl)
    (count : after.freeNodeCount = vma.freeNodeCount := by rfl)
    (slabs : after.slabPages = vma.slabPages := by rfl) : after.Wired shape chain loose := by
  have same : Elsewhere [] vma.nodes after.nodes := by
    rw [nodes]
    exact (AvlStore.SameOutside.refl _ _).elsewhere
  constructor
  · exact wired.layout.transport same nofun roots list count slabs
  · intro tree
    rw [nodes]
    exact wired.depths tree

theorem Wired.setRegion (wired : vma.Wired shape chain loose)
    (member : node ∈ (shape tree).inorder) (region : VmRegion) :
    (vma.setRegion node region).Wired shape chain loose where
  layout := wired.layout.setRegion (wired.layout.not_chain member) region
  depths := fun other => (wired.depths other).setData (fun _ _ _ _ => trivial)

theorem Wired.taken (wired : vma.Wired shape (new :: chain) loose)
    (few : (new :: chain).length < 2 ^ 64) :
    takeNode vma = .ok (new, vma.taken new) ∧
      (vma.taken new).Wired shape chain (new :: loose) := by
  obtain ⟨run, layout⟩ := takeNode_layout wired.layout few
  have same : Elsewhere [new] vma.nodes (vma.taken new).nodes := clearNode_elsewhere _ _
  refine ⟨run, layout, ?_⟩
  intro owner
  apply same.settled _ (wired.depths owner)
  exact apart_singleton (fun member => wired.layout.not_chain member mem_cons_self)

/-- A node that can be detached is taken out of its tree. -/
theorem Wired.removed {pointer : Nat} {result : BinaryTree Nat}
    (wired : vma.Wired shape chain loose) (short : (shape tree).inorder.length + 2 < treeFuel)
    (detached : detach pointer (shape tree) = some result) :
    ∃ nodes, removeFromTree tree pointer vma = .ok (vma.setTree tree (rootOf result) nodes) ∧
      (vma.setTree tree (rootOf result) nodes).Wired (Function.update shape tree result) chain
        (pointer :: loose) := by
  have layout := wired.layout
  obtain ⟨_, frames, left, right, found⟩ := focus_of_detach detached
  have around : AvlStore.SettledAround AnySummary vma.nodes frames left right := by
    have depths := wired.depths tree
    rw [focus_plug found] at depths
    exact depths.around frames
  obtain ⟨nodes, run, newLayout, settled, same⟩ := remove_layout (fun _ _ _ => trivial) layout
    found around detached short
  exact ⟨nodes, run, newLayout,
    settled_update same.elsewhere layout.apart_tree wired.depths settled⟩

theorem Wired.freed (wired : vma.Wired shape chain (node :: loose)) (nonzero : node ≠ 0)
    (few : chain.length + 1 < 2 ^ 64) :
    (vma.freeVmDsNode node).Wired shape (node :: chain) loose where
  layout := freeVmDsNode_layout wired.layout nonzero few
  depths := by
    have same : Elsewhere [node] vma.nodes (vma.freeVmDsNode node).nodes := setData_elsewhere _ _ _
    intro owner
    apply same.settled _ (wired.depths owner)
    exact apart_singleton (fun member => wired.layout.not_loose member mem_cons_self)

theorem Wired.kernelTrees (wired : vma.Wired shape chain loose)
    (short : ∀ tree, (shape tree).inorder.length < treeFuel) : vma.KernelTrees shape where
  rooted := wired.layout.rooted
  linked := wired.layout.linked
  distinct := wired.layout.tree_nodup
  short := fun tree => Nat.lt_of_le_of_lt (height_le_length _) (short tree)

end Wired

/-! ### Nodes that are not written -/

def Spares (vma after : Vma) (tree : BinaryTree Nat) : Prop :=
  ∃ written, Elsewhere written vma.nodes after.nodes ∧ ∀ node ∈ tree.inorder, node ∉ written

section Spares

variable {vma middle after : Vma} {tree : BinaryTree Nat} {written : List Nat}

theorem Spares.of_outside (same : Elsewhere written vma.nodes after.nodes)
    (outside : ∀ node ∈ tree.inorder, node ∉ written) : vma.Spares after tree :=
  ⟨written, same, outside⟩

theorem Spares.trans (first : vma.Spares middle tree) (second : middle.Spares after tree) :
    vma.Spares after tree := by
  obtain ⟨before, same, outside⟩ := first
  obtain ⟨later, laterSame, laterOutside⟩ := second
  apply Spares.of_outside ((same.mono (subset_append_left before later)).trans
    (laterSame.mono (subset_append_right before later)))
  intro node member inside
  rcases mem_append.mp inside with inBefore | inLater
  · exact outside node member inBefore
  · exact laterOutside node member inLater

theorem Spares.region (spares : vma.Spares after tree) {node : Nat} (member : node ∈ tree.inorder) :
    after.region node = vma.region node := by
  obtain ⟨_, same, outside⟩ := spares
  exact same.data node (outside node member)

end Spares

/-! ### Splitting a region -/

/-- The tree with the leftover of a region where the comparisons put it. -/
def splitTree (vma : Vma) (shape : BinaryTree Nat) (new node size : Nat) : BinaryTree Nat :=
  insertTree (vma.goesLeft (word (vma.startOf node + size))) new shape

theorem splitTree_perm (vma : Vma) (shape : BinaryTree Nat) (new node size : Nat) :
    (vma.splitTree shape new node size).inorder.Perm (new :: shape.inorder) :=
  insertTree_perm _ _ _

/-- A state that differs from another one only in the shape of one tree and in the
regions. -/
structure Reshaped (middle after : Vma) (regions : Nat → VmRegion) : Prop where
  regions : ∀ other, after.region other = regions other
  vmm : after.vmm = middle.vmm
  slabPages : after.slabPages = middle.slabPages
  freeList : after.freeList = middle.freeList
  freeNodeCount : after.freeNodeCount = middle.freeNodeCount
  inReplenishCycle : after.inReplenishCycle = middle.inReplenishCycle

section Split

variable {vma middle : Vma} {shape : Shapes} {chain loose : List Nat} {tree : KTree}
  {node new size flags : Nat} {type : VmNodeType} {allocNode : Vma → Except Fault (Nat × Vma)}

/-- A split always returns: the leftover is inserted somewhere. -/
theorem Wired.carve_split (wired : middle.Wired shape chain (new :: loose)) (nonzero : new ≠ 0)
    (short : (shape tree).inorder.length ≤ treeFuel) (member : node ∈ (shape tree).inorder)
    (different : ¬ size = (vma.region node).size) (supply : allocNode vma = .ok (new, middle))
    (type : VmNodeType) (flags : Nat) :
    ∃ after, carve allocNode tree size type flags node vma = .ok after ∧
      after.Wired (Function.update shape tree (middle.splitTree (shape tree) new node size)) chain
        loose ∧
      Reshaped middle after (middle.cut new node size type flags).region ∧
      ∀ owner, owner ≠ tree → middle.Spares after (shape owner) := by
  have layout := wired.layout
  have absent : ∀ owner, new ∉ (shape owner).inorder :=
    fun owner inTree => layout.not_loose inTree mem_cons_self
  have apart : node ≠ new := fun same => absent tree (same ▸ member)
  have elsewhere := middle.cut_elsewhere new node size type flags
  have turns : insertTree ((middle.cut new node size type flags).goesLeft
      (word (middle.startOf node + size))) new (shape tree) =
      middle.splitTree (shape tree) new node size := by
    apply insertTree_congr
    intro other onWay
    have inTree := descent_subset onWay
    have start : ((middle.cut new node size type flags).region other).startAddr =
        (middle.region other).startAddr := by
      rw [middle.cut_region nonzero apart]
      by_cases here : other = node
      · rw [if_pos here, here]
      · rw [if_neg here, if_neg (fun isNew : other = new => absent tree (isNew ▸ inTree))]
    unfold goesLeft vmAvlCompAddr
    rw [start]
  have notNew : ∀ owner, ∀ other ∈ (shape owner).inorder, other ∉ [new] :=
    fun owner => apart_singleton (absent owner)
  have prepared := initVmDsNode_elsewhere middle.nodes new (word (middle.startOf node + size))
    (wordSub (middle.sizeOf node) size) .free vmAvlUpdateAddress
  have depths : ∀ owner, (middle.cut new node size type flags).nodes.Settled AnySummary
      (shape owner) := fun owner =>
    (prepared.settled (notNew owner) (wired.depths owner)).setData (fun _ _ _ _ => trivial)
  have present : shape tree ≠ nil := by
    intro empty
    rw [empty] at member
    cases member
  have installed : (middle.cut new node size type flags).nodes.update new = vmAvlUpdateAddress :=
    (initVmDsNode_fields middle.nodes nonzero _ _ .free vmAvlUpdateAddress).2.2.2.2.1
  obtain ⟨nodes, inserted, newLayout, settled, same⟩ := insert_layout (fun _ _ _ => trivial) (cut_layout layout member)
    present (cut_fresh (fun _ _ _ => trivial) nonzero apart) installed short
    ((depths tree).off ((middle.cut new node size type flags).goesLeft
      (word (middle.startOf node + size))))
  rw [turns] at inserted newLayout settled
  have roots : ∀ owner, (middle.cut new node size type flags).root owner = middle.root owner :=
    fun owner => by cases owner <;> rfl
  rw [roots] at inserted
  have state : (middle.cut new node size type flags).setTree tree
      (rootOf (middle.splitTree (shape tree) new node size)) nodes =
      middle.setTree tree (rootOf (middle.splitTree (shape tree) new node size)) nodes := by
    cases tree <;> rfl
  rw [state] at newLayout
  refine ⟨_, carve_cut different supply inserted, ⟨newLayout, ?_⟩, ?_, ?_⟩
  · exact settled_update same.elsewhere (layout.apart_grown absent) depths settled
  · constructor
    · intro other
      unfold region
      rw [setTree_nodes]
      exact congrFun same.data other
    · exact setTree_vmm _ _ _ _
    · exact setTree_slabPages _ _ _ _
    · exact setTree_freeList _ _ _ _
    · exact setTree_freeNodeCount _ _ _ _
    · exact setTree_inReplenishCycle _ _ _ _
  · intro owner otherTree
    have written : Elsewhere (new :: (shape tree).inorder) middle.nodes
        (middle.setTree tree (rootOf (middle.splitTree (shape tree) new node size)) nodes).nodes := by
      rw [setTree_nodes]
      refine (elsewhere.mono ?_).trans same.elsewhere
      intro other inside
      rcases mem_cons.mp inside with isNew | isNode
      · exact isNew ▸ mem_cons_self
      · exact mem_cons_of_mem _ (mem_singleton.mp isNode ▸ member)
    apply Spares.of_outside written
    intro other inOwner inside
    rcases mem_cons.mp inside with isNew | inTree
    · exact absent owner (isNew ▸ inOwner)
    · exact layout.trees_apart otherTree inTree inOwner

end Split

/-! ### Carving with a node from the free list -/

def grantTree (vma : Vma) (shape : BinaryTree Nat) (new node size : Nat) : BinaryTree Nat :=
  if size = vma.sizeOf node then shape else (vma.taken new).splitTree shape new node size

def grantRegion (vma : Vma) (new node size : Nat) (type : VmNodeType) (flags : Nat) :
    Nat → VmRegion :=
  if size = vma.sizeOf node then
    (vma.setRegion node { vma.region node with type := type, flags := flags }).region
  else ((vma.taken new).cut new node size type flags).region

def grantChain (vma : Vma) (new node size : Nat) (chain : List Nat) : List Nat :=
  if size = vma.sizeOf node then new :: chain else chain

section Grant

variable {vma : Vma} {shape : Shapes} {chain loose : List Nat} {tree : KTree}
  {node new size flags : Nat} {type : VmNodeType} {allocNode : Vma → Except Fault (Nat × Vma)}

theorem grantTree_subset {shape : BinaryTree Nat} {other : Nat} (inTree : other ∈ shape.inorder) :
    other ∈ (vma.grantTree shape new node size).inorder := by
  unfold grantTree
  split
  · exact inTree
  · exact (splitTree_perm _ _ _ _ _).mem_iff.mpr (mem_cons_of_mem _ inTree)

theorem grantTree_length (vma : Vma) (shape : BinaryTree Nat) (new node size : Nat) :
    (vma.grantTree shape new node size).inorder.length ≤ shape.inorder.length + 1 := by
  unfold grantTree
  split
  · exact Nat.le_succ _
  · exact (splitTree_perm _ _ _ _ _).length_eq.le

theorem taken_region (vma : Vma) {new other : Nat} (different : other ≠ new) :
    (vma.taken new).region other = vma.region other :=
  (clearNode_elsewhere vma.nodes new).data other
    (fun inside => different (mem_singleton.mp inside))

theorem grantRegion_node (nonzero : new ≠ 0) (different : node ≠ new) (size : Nat)
    (type : VmNodeType) (flags : Nat) :
    vma.grantRegion new node size type flags node =
      { vma.region node with type := type, flags := flags, size := size } := by
  unfold grantRegion
  split
  · rename_i exactly
    rw [setRegion_region, if_pos rfl, exactly]
    rfl
  · rw [cut_region _ nonzero different, if_pos rfl, taken_region vma different]

theorem grantRegion_other (nonzero : new ≠ 0) (different : node ≠ new) {other : Nat}
    (notNode : other ≠ node) (notNew : other ≠ new) (size : Nat) (type : VmNodeType)
    (flags : Nat) : vma.grantRegion new node size type flags other = vma.region other := by
  unfold grantRegion
  split
  · rw [setRegion_region, if_neg notNode]
  · rw [cut_region _ nonzero different, if_neg notNode, if_neg notNew, taken_region vma notNew]

/-- With a node from the free list every request is carved out of its region. -/
theorem Wired.carve_taken (wired : vma.Wired shape (new :: chain) loose) (nonzero : new ≠ 0)
    (few : (new :: chain).length < 2 ^ 64) (short : (shape tree).inorder.length ≤ treeFuel)
    (member : node ∈ (shape tree).inorder)
    (supply : ¬ size = vma.sizeOf node → allocNode vma = .ok (new, vma.taken new))
    (type : VmNodeType) (flags : Nat) :
    ∃ after, carve allocNode tree size type flags node vma = .ok after ∧
      after.Wired (Function.update shape tree (vma.grantTree (shape tree) new node size))
        (vma.grantChain new node size chain) loose ∧
      (∀ other, after.region other = vma.grantRegion new node size type flags other) ∧
      after.vmm = vma.vmm ∧ after.slabPages = vma.slabPages ∧
      after.inReplenishCycle = vma.inReplenishCycle ∧
      ∀ owner, owner ≠ tree → vma.Spares after (shape owner) := by
  unfold grantTree grantChain grantRegion
  by_cases exactly : size = vma.sizeOf node
  · refine ⟨_, if_pos exactly, ?_, ?_, rfl, rfl, rfl, ?_⟩
    · rw [if_pos exactly, if_pos exactly, update_eq_self]
      exact wired.setRegion member _
    · intro other
      rw [if_pos exactly]
    · intro owner otherTree
      apply Spares.of_outside (setData_elsewhere vma.nodes node _)
      intro other inOwner inside
      exact wired.layout.trees_apart otherTree member (mem_singleton.mp inside ▸ inOwner)
  · rw [if_neg exactly, if_neg exactly, if_neg exactly]
    obtain ⟨after, carved, afterWired, reshaped, spares⟩ :=
      (wired.taken few).2.carve_split nonzero short member exactly (supply exactly) type flags
    refine ⟨after, carved, afterWired, reshaped.regions, reshaped.vmm, reshaped.slabPages,
      reshaped.inReplenishCycle, ?_⟩
    intro owner otherTree
    refine Spares.trans (Spares.of_outside (clearNode_elsewhere vma.nodes new) ?_)
      (spares owner otherTree)
    intro other inOwner inside
    exact wired.layout.not_chain inOwner (mem_singleton.mp inside ▸ mem_cons_self)

end Grant

end Vma

end Fesos
