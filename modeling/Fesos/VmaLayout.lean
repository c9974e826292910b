/-
How the nodes of the VMA are laid out: two trees, the free list, and the nodes
in between that a call holds.

`Layout` says nothing about the regions the nodes describe, so it survives the
middle of an allocation or a free, when the tiling of the ranges is open.
-/

import Fesos.Vma
import Fesos.AvlInsert
import Fesos.AvlRemove
import Fesos.Library.Chains

set_option autoImplicit false

namespace Fesos

open BinaryTree Library Function
open List hiding nil

structure Elsewhere (nodes : List Nat) (before after : AvlStore VmRegion Nat) : Prop where
  parent : ∀ other, other ∉ nodes → after.parent other = before.parent other
  left : ∀ other, other ∉ nodes → after.left other = before.left other
  right : ∀ other, other ∉ nodes → after.right other = before.right other
  depth : ∀ other, other ∉ nodes → after.subtreeMaxDepth other = before.subtreeMaxDepth other
  update : ∀ other, other ∉ nodes → after.update other = before.update other
  data : ∀ other, other ∉ nodes → after.data other = before.data other
  summary : ∀ other, other ∉ nodes → after.summary other = before.summary other

variable {after before : AvlStore VmRegion Nat} {nodes : List Nat}

theorem AvlStore.SameOutside.elsewhere
    (same : AvlStore.SameOutside nodes before after) : Elsewhere nodes before after :=
  ⟨same.parent, same.left, same.right, same.depth, fun _ _ => congrFun same.update _,
    fun _ _ => congrFun same.data _, same.summary⟩

theorem Elsewhere.trans {middle : AvlStore VmRegion Nat}
    (first : Elsewhere nodes before middle) (second : Elsewhere nodes middle after) :
    Elsewhere nodes before after where
  parent := AvlStore.agree_trans first.parent second.parent
  left := AvlStore.agree_trans first.left second.left
  right := AvlStore.agree_trans first.right second.right
  depth := AvlStore.agree_trans first.depth second.depth
  update := AvlStore.agree_trans first.update second.update
  data := AvlStore.agree_trans first.data second.data
  summary := AvlStore.agree_trans first.summary second.summary

theorem Elsewhere.mono {more : List Nat}
    (same : Elsewhere nodes before after) (subset : nodes ⊆ more) : Elsewhere more before after where
  parent := AvlStore.agree_mono subset same.parent
  left := AvlStore.agree_mono subset same.left
  right := AvlStore.agree_mono subset same.right
  depth := AvlStore.agree_mono subset same.depth
  update := AvlStore.agree_mono subset same.update
  data := AvlStore.agree_mono subset same.data
  summary := AvlStore.agree_mono subset same.summary

theorem Elsewhere.linked {above : Nat} {tree : BinaryTree Nat} (same : Elsewhere nodes before after)
    (apart : ∀ pointer ∈ tree.inorder, pointer ∉ nodes) (linked : before.Linked above tree) :
    after.Linked above tree :=
  linked.transport (fun pointer member => same.parent pointer (apart pointer member))
    (fun pointer member => same.left pointer (apart pointer member))
    (fun pointer member => same.right pointer (apart pointer member))

theorem Elsewhere.settled {goal : SummaryGoal VmRegion Nat} {tree : BinaryTree Nat}
    (same : Elsewhere nodes before after) (apart : ∀ pointer ∈ tree.inorder, pointer ∉ nodes)
    (settled : before.Settled goal tree) : after.Settled goal tree :=
  settled.transport (fun pointer member => same.depth pointer (apart pointer member))
    (fun pointer member => same.summary pointer (apart pointer member))
    (fun pointer member => same.data pointer (apart pointer member))

namespace Vma

abbrev Shapes : Type := KTree → BinaryTree Nat

def nodesOf (shape : Shapes) (chain loose : List Nat) : List Nat :=
  (shape .heap).inorder ++ ((shape .mmio).inorder ++ (chain ++ loose))

def startOf (vma : Vma) (node : Nat) : Nat := (vma.region node).startAddr

def sizeOf (vma : Vma) (node : Nat) : Nat := (vma.region node).size

def InSlab (vma : Vma) (node : Nat) : Prop :=
  ∃ page ∈ vma.slabPages, ∃ index < nodesPerPage, node = page + 88 * index

theorem startOf_elsewhere {vma after : Vma} {touched : List Nat}
    (same : Elsewhere touched vma.nodes after.nodes) {node : Nat} (outside : node ∉ touched) :
    after.startOf node = vma.startOf node :=
  congrArg VmRegion.startAddr (same.data node outside)

structure Layout (vma : Vma) (shape : Shapes) (chain loose : List Nat) : Prop where
  linked : ∀ tree, vma.nodes.Linked 0 (shape tree)
  rooted : ∀ tree, vma.root tree = rootOf (shape tree)
  callback : ∀ tree, ∀ node ∈ (shape tree).inorder, vma.nodes.update node = vmAvlUpdateAddress
  chained : Chain vma.startOf vma.freeList chain
  counted : vma.freeNodeCount = chain.length
  separate : (nodesOf shape chain loose).Nodup
  located : ∀ node ∈ nodesOf shape chain loose, vma.InSlab node

section Membership

variable {order : KTree → List Nat} {shape : Shapes} {chain loose : List Nat} {node : Nat}

theorem mem_parts : node ∈ order .heap ++ (order .mmio ++ (chain ++ loose)) ↔
    (∃ tree, node ∈ order tree) ∨ node ∈ chain ∨ node ∈ loose := by
  simp only [mem_append]
  constructor
  · rintro (inHeap | inMmio | inChain | inLoose)
    · exact Or.inl ⟨.heap, inHeap⟩
    · exact Or.inl ⟨.mmio, inMmio⟩
    · exact Or.inr (Or.inl inChain)
    · exact Or.inr (Or.inr inLoose)
  · rintro (⟨_ | _, inTree⟩ | inChain | inLoose)
    · exact Or.inl inTree
    · exact Or.inr (Or.inl inTree)
    · exact Or.inr (Or.inr (Or.inl inChain))
    · exact Or.inr (Or.inr (Or.inr inLoose))

theorem nodup_parts : (order .heap ++ (order .mmio ++ (chain ++ loose))).Nodup ↔
    (∀ tree, (order tree).Nodup) ∧ chain.Nodup ∧ loose.Nodup ∧
      (∀ node ∈ order .heap, node ∉ order .mmio) ∧
      (∀ tree, ∀ node ∈ order tree, node ∉ chain ∧ node ∉ loose) ∧
      ∀ node ∈ chain, node ∉ loose := by
  simp only [nodup_append, mem_append]
  constructor
  · rintro ⟨heapNodup, ⟨mmioNodup, ⟨chainNodup, looseNodup, chainLoose⟩, mmioRest⟩, heapRest⟩
    refine ⟨?_, chainNodup, looseNodup, ?_, ?_, ?_⟩
    · rintro (_ | _)
      · exact heapNodup
      · exact mmioNodup
    · exact fun node inHeap inMmio => heapRest node inHeap node (Or.inl inMmio) rfl
    · rintro (_ | _) node inTree
      · exact ⟨fun inChain => heapRest node inTree node (Or.inr (Or.inl inChain)) rfl,
          fun inLoose => heapRest node inTree node (Or.inr (Or.inr inLoose)) rfl⟩
      · exact ⟨fun inChain => mmioRest node inTree node (Or.inl inChain) rfl,
          fun inLoose => mmioRest node inTree node (Or.inr inLoose) rfl⟩
    · exact fun node inChain inLoose => chainLoose node inChain node inLoose rfl
  · rintro ⟨trees, chainNodup, looseNodup, heapMmio, treeRest, chainLoose⟩
    refine ⟨trees .heap, ⟨trees .mmio, ⟨chainNodup, looseNodup, ?_⟩, ?_⟩, ?_⟩
    · exact fun node inChain other inLoose same => chainLoose node inChain (same ▸ inLoose)
    · rintro node inMmio other (inChain | inLoose) same
      · exact (treeRest .mmio node inMmio).1 (same ▸ inChain)
      · exact (treeRest .mmio node inMmio).2 (same ▸ inLoose)
    · rintro node inHeap other (inMmio | inChain | inLoose) same
      · exact heapMmio node inHeap (same ▸ inMmio)
      · exact (treeRest .heap node inHeap).1 (same ▸ inChain)
      · exact (treeRest .heap node inHeap).2 (same ▸ inLoose)

theorem mem_nodesOf : node ∈ nodesOf shape chain loose ↔
    (∃ tree, node ∈ (shape tree).inorder) ∨ node ∈ chain ∨ node ∈ loose :=
  @mem_parts (fun tree => (shape tree).inorder) chain loose node

theorem nodup_nodesOf : (nodesOf shape chain loose).Nodup ↔
    (∀ tree, (shape tree).inorder.Nodup) ∧ chain.Nodup ∧ loose.Nodup ∧
      (∀ node ∈ (shape .heap).inorder, node ∉ (shape .mmio).inorder) ∧
      (∀ tree, ∀ node ∈ (shape tree).inorder, node ∉ chain ∧ node ∉ loose) ∧
      ∀ node ∈ chain, node ∉ loose :=
  @nodup_parts (fun tree => (shape tree).inorder) chain loose

end Membership

theorem count_nodesOf (shape : Shapes) (chain loose : List Nat) (node : Nat) :
    (nodesOf shape chain loose).count node =
      (shape .heap).inorder.count node + ((shape .mmio).inorder.count node +
        (chain.count node + loose.count node)) := by
  unfold nodesOf
  simp only [count_append]

section Parts

variable {vma : Vma} {shape : Shapes} {chain loose : List Nat}

theorem Layout.tree_nodup (layout : vma.Layout shape chain loose) (tree : KTree) :
    (shape tree).inorder.Nodup :=
  (nodup_nodesOf.mp layout.separate).1 tree

variable {tree : KTree} {node : Nat}

section

variable (layout : vma.Layout shape chain loose)

include layout

theorem Layout.not_chain (member : node ∈ (shape tree).inorder) : node ∉ chain :=
  ((nodup_nodesOf.mp layout.separate).2.2.2.2.1 tree node member).1

theorem Layout.not_loose (member : node ∈ (shape tree).inorder) : node ∉ loose :=
  ((nodup_nodesOf.mp layout.separate).2.2.2.2.1 tree node member).2

theorem Layout.trees_apart {other : KTree}
    (different : other ≠ tree) (member : node ∈ (shape tree).inorder) :
    node ∉ (shape other).inorder := by
  have apart := (nodup_nodesOf.mp layout.separate).2.2.2.1
  cases tree <;> cases other
  · exact absurd rfl different
  · exact apart node member
  · exact fun inHeap => apart node inHeap member
  · exact absurd rfl different

theorem Layout.ne_of_other {other : KTree} {here : Nat} (different : other ≠ tree)
    (member : here ∈ (shape tree).inorder) (inOther : node ∈ (shape other).inorder) :
    node ≠ here :=
  fun same => layout.trees_apart different member (same ▸ inOther)

theorem Layout.apart_tree (other : KTree) (different : other ≠ tree) (node : Nat)
    (member : node ∈ (shape other).inorder) : node ∉ (shape tree).inorder :=
  fun inTree => layout.trees_apart different inTree member

theorem Layout.apart_grown {new : Nat} (absent : ∀ owner, new ∉ (shape owner).inorder)
    (other : KTree) (different : other ≠ tree) (node : Nat)
    (member : node ∈ (shape other).inorder) : node ∉ new :: (shape tree).inorder := by
  intro inside
  rcases mem_cons.mp inside with isNew | inTree
  · exact absent other (isNew ▸ member)
  · exact layout.trees_apart different inTree member

theorem Layout.ready {goal : SummaryGoal VmRegion Nat}
    (establishes : ∀ region left right, goal region left right (vmAvlUpdate region left right))
    (member : node ∈ (shape tree).inorder) :
    vma.nodes.Ready vmCallbacks goal node := by
  refine Or.inr ⟨?_, vmAvlUpdate, ?_, fun left right => establishes _ left right⟩
  · rw [layout.callback tree node member]
    decide
  · rw [layout.callback tree node member]
    rfl

omit layout in
theorem Layout.head_ne_zero (layout : vma.Layout shape (node :: chain) loose) : node ≠ 0 :=
  layout.chained.2.1

omit layout in
theorem Layout.ne_head {first : Nat} (layout : vma.Layout shape (first :: chain) loose)
    (member : node ∈ (shape tree).inorder) : node ≠ first :=
  fun same => layout.not_chain member (same ▸ mem_cons_self)

/-- Nodes move between the free list and a call; those of the trees stay as they are. -/
theorem Layout.rechain {after : Vma} {touched newChain newLoose : List Nat}
    (same : Elsewhere touched vma.nodes after.nodes)
    (apart : ∀ tree, ∀ node ∈ (shape tree).inorder, node ∉ touched)
    (roots : ∀ tree, after.root tree = vma.root tree)
    (chained : Chain after.startOf after.freeList newChain)
    (counted : after.freeNodeCount = newChain.length)
    (perm : (nodesOf shape newChain newLoose).Perm (nodesOf shape chain loose))
    (slabs : after.slabPages = vma.slabPages) : after.Layout shape newChain newLoose where
  linked := fun tree => same.linked (apart tree) (layout.linked tree)
  rooted := fun tree => (roots tree).trans (layout.rooted tree)
  callback := fun tree node member =>
    (same.update node (apart tree node member)).trans (layout.callback tree node member)
  chained := chained
  counted := counted
  separate := perm.nodup_iff.mpr layout.separate
  located := by
    unfold InSlab
    rw [slabs]
    exact fun node member => layout.located node (perm.mem_iff.mp member)

/-- The layout only depends on the nodes it lists. -/
theorem Layout.transport {after : Vma} {touched : List Nat}
    (same : Elsewhere touched vma.nodes after.nodes)
    (apart : ∀ node ∈ touched, node ∉ nodesOf shape chain [])
    (roots : ∀ tree, after.root tree = vma.root tree) (list : after.freeList = vma.freeList)
    (count : after.freeNodeCount = vma.freeNodeCount) (slabs : after.slabPages = vma.slabPages) :
    after.Layout shape chain loose := by
  refine layout.rechain same (fun tree node member inside => apart node inside
    (mem_nodesOf.mpr (Or.inl ⟨tree, member⟩))) roots ?_ (count.trans layout.counted) (.refl _) slabs
  rw [list]
  exact layout.chained.congr (fun node member => startOf_elsewhere same (fun inside =>
    apart node inside (mem_nodesOf.mpr (Or.inr (Or.inl member)))))

end

end Parts

/-! ### Taking and giving back nodes -/

theorem avlInit_elsewhere (store : AvlStore VmRegion Nat) (node callback : Nat) :
    Elsewhere [node] store (store.avlInit node callback) := by
  unfold AvlStore.avlInit
  split
  · exact (AvlStore.SameOutside.refl _ _).elsewhere
  constructor <;> intro other outside <;>
    simp only [mem_singleton] at outside <;>
    simp [AvlStore.setParent, AvlStore.setLeft, AvlStore.setRight, AvlStore.setDepth,
      AvlStore.setUpdate, outside]

theorem setData_elsewhere (store : AvlStore VmRegion Nat) (node : Nat) (region : VmRegion) :
    Elsewhere [node] store (store.setData node region) :=
  ⟨fun _ _ => rfl, fun _ _ => rfl, fun _ _ => rfl, fun _ _ => rfl, fun _ _ => rfl,
    fun _ outside => update_of_ne (by simpa using outside) _ _, fun _ _ => rfl⟩

theorem setSummary_elsewhere (store : AvlStore VmRegion Nat) (node summary : Nat) :
    Elsewhere [node] store (store.setSummary node summary) :=
  ⟨fun _ _ => rfl, fun _ _ => rfl, fun _ _ => rfl, fun _ _ => rfl, fun _ _ => rfl, fun _ _ => rfl,
    fun _ outside => update_of_ne (by simpa using outside) _ _⟩

theorem clearNode_elsewhere (store : AvlStore VmRegion Nat) (node : Nat) :
    Elsewhere [node] store (clearNode store node) :=
  ((avlInit_elsewhere store node 0).trans (setData_elsewhere _ _ _)).trans
    (setSummary_elsewhere _ _ _)

section Nodes

variable {vma : Vma} {shape : Shapes} {chain loose : List Nat} {node : Nat}

def taken (vma : Vma) (node : Nat) : Vma :=
  { vma with
    nodes := clearNode vma.nodes node
    freeList := vma.startOf node
    freeNodeCount := wordSub vma.freeNodeCount 1 }

theorem takeNode_layout (layout : vma.Layout shape (node :: chain) loose)
    (few : (node :: chain).length < 2 ^ 64) :
    takeNode vma = .ok (node, vma.taken node) ∧
      (vma.taken node).Layout shape chain (node :: loose) := by
  obtain ⟨headIs, nonzero, rest⟩ := layout.chained
  have parts := nodup_nodesOf.mp layout.separate
  have perm : (nodesOf shape chain (node :: loose)).Perm (nodesOf shape (node :: chain) loose) :=
    ((perm_middle.append_left _).append_left _)
  have same : Elsewhere [node] vma.nodes (vma.taken node).nodes := clearNode_elsewhere _ _
  have notChain : node ∉ chain := (nodup_cons.mp parts.2.1).1
  have notTree : ∀ tree, ∀ other ∈ (shape tree).inorder, other ∉ [node] :=
    fun tree => apart_singleton (fun member => (parts.2.2.2.2.1 tree node member).1 mem_cons_self)
  refine ⟨?_, layout.rechain same notTree (fun _ => rfl) ?_ ?_ perm rfl⟩
  · unfold takeNode taken
    rw [headIs, if_neg nonzero]
    rfl
  · exact rest.congr (fun other member =>
      startOf_elsewhere same (apart_singleton notChain other member))
  · change wordSub vma.freeNodeCount 1 = chain.length
    rw [layout.counted, wordSub_of_le (by simp) few]
    simp

/-- With nodes to spare, `alloc_vm_ds_node` only takes one. -/
theorem allocVmDsNode_taken (taking : takeNode vma = .ok (node, vma.taken node))
    (many : minimumAvailableNodes ≤ wordSub vma.freeNodeCount 1) :
    allocVmDsNode vma = .ok (node, vma.taken node) := by
  unfold allocVmDsNode
  rw [taking, ok_bind, if_neg]
  · rfl
  · exact fun low => Nat.not_lt_of_le many low.1

theorem allocVmDsNode_takes (layout : vma.Layout shape (node :: chain) loose)
    (few : (node :: chain).length < 2 ^ 64) (many : minimumAvailableNodes ≤ chain.length) :
    allocVmDsNode vma = .ok (node, vma.taken node) := by
  obtain ⟨taking, taken⟩ := takeNode_layout layout few
  exact allocVmDsNode_taken taking (many.trans_eq taken.counted.symm)

theorem freeVmDsNode_layout (layout : vma.Layout shape chain (node :: loose))
    (nonzero : node ≠ 0) (few : chain.length + 1 < 2 ^ 64) :
    (vma.freeVmDsNode node).Layout shape (node :: chain) loose := by
  have parts := nodup_nodesOf.mp layout.separate
  have perm : (nodesOf shape (node :: chain) loose).Perm (nodesOf shape chain (node :: loose)) :=
    ((perm_middle.symm.append_left _).append_left _)
  have same : Elsewhere [node] vma.nodes (vma.freeVmDsNode node).nodes := setData_elsewhere _ _ _
  have notTree : ∀ tree, ∀ other ∈ (shape tree).inorder, other ∉ [node] :=
    fun tree => apart_singleton (fun member => (parts.2.2.2.2.1 tree node member).2 mem_cons_self)
  refine layout.rechain same notTree (fun _ => rfl) ?_ ?_ perm rfl
  · refine layout.chained.cons nonzero ?_ (fun other member => startOf_elsewhere same
      (apart_singleton (fun inChain => parts.2.2.2.2.2 node inChain mem_cons_self) other member))
    unfold startOf region freeVmDsNode setStart AvlStore.setData
    simp only [update_self]
  · change word (vma.freeNodeCount + 1) = (node :: chain).length
    rw [layout.counted, word_of_lt few]
    rfl

theorem Layout.setRegion (layout : vma.Layout shape chain loose) (notChain : node ∉ chain)
    (region : VmRegion) : (vma.setRegion node region).Layout shape chain loose := by
  have same : Elsewhere [node] vma.nodes (vma.setRegion node region).nodes :=
    setData_elsewhere _ _ _
  refine
    { layout with
      linked := fun tree => (layout.linked tree).transport (fun _ _ => rfl) (fun _ _ => rfl)
        (fun _ _ => rfl)
      chained := ?_ }
  exact layout.chained.congr (fun other member =>
    startOf_elsewhere same (apart_singleton notChain other member))

theorem Layout.setLoose (layout : vma.Layout shape chain (node :: loose))
    {nodes : AvlStore VmRegion Nat} (same : Elsewhere [node] vma.nodes nodes) :
    ({ vma with nodes := nodes } : Vma).Layout shape chain (node :: loose) := by
  refine layout.transport same ?_ (fun owner => by cases owner <;> rfl) rfl rfl rfl
  intro other inside listed
  rw [mem_singleton.mp inside] at listed
  rcases mem_nodesOf.mp listed with ⟨owner, inTree⟩ | inChain | inNil
  · exact layout.not_loose inTree mem_cons_self
  · exact (nodup_nodesOf.mp layout.separate).2.2.2.2.2 node inChain mem_cons_self
  · cases inNil

end Nodes

/-! ### A new slab page -/

def pageNodes (page count : Nat) : List Nat := (List.range count).map (fun index => page + 88 * index)

theorem length_pageNodes (page count : Nat) : (pageNodes page count).length = count := by
  unfold pageNodes
  rw [length_map, length_range]

theorem mem_pageNodes {page count node : Nat} :
    node ∈ pageNodes page count ↔ ∃ index < count, node = page + 88 * index := by
  simp only [pageNodes, mem_map, mem_range]
  constructor
  · rintro ⟨index, small, same⟩
    exact ⟨index, small, same.symm⟩
  · rintro ⟨index, small, same⟩
    exact ⟨index, small, same.symm⟩

theorem pageNodes_succ (page count : Nat) :
    pageNodes page (count + 1) = pageNodes page count ++ [page + 88 * count] := by
  simp [pageNodes, range_succ]

theorem pageNodes_nodup (page count : Nat) : (pageNodes page count).Nodup := by
  refine List.Nodup.map ?_ nodup_range
  intro left right same
  simp only at same
  omega

theorem threadNodes_elsewhere (page count : Nat) (store : AvlStore VmRegion Nat) :
    Elsewhere (pageNodes page count) store (threadNodes page count store) := by
  induction count with
  | zero => exact (AvlStore.SameOutside.refl _ _).elsewhere
  | succ count ih =>
    rw [pageNodes_succ]
    exact (ih.mono (subset_append_left _ _)).trans
      ((setData_elsewhere _ _ _).mono (subset_append_right _ _))

theorem threadNodes_start (page count : Nat) (store : AvlStore VmRegion Nat) {index : Nat}
    (small : index < count) :
    ((threadNodes page count store).data (page + 88 * index)).startAddr =
      page + 88 * (index + 1) := by
  induction count with
  | zero => omega
  | succ count ih =>
    simp only [threadNodes, setStart, AvlStore.setData]
    by_cases last : index = count
    · rw [last, update_self]
    · rw [update_of_ne (by omega)]
      exact ih (by omega)

theorem chain_pageNodes {next : Nat → Nat} {page count : Nat} {rest : List Nat} (nonzero : page ≠ 0)
    (links : ∀ index < count, next (page + 88 * index) = page + 88 * (index + 1))
    (chain : Chain next (page + 88 * count) rest) :
    Chain next page (pageNodes page count ++ rest) := by
  induction count generalizing rest with
  | zero => exact chain
  | succ count ih =>
    rw [pageNodes_succ, append_assoc]
    refine ih (fun index small => links index (by omega)) ⟨rfl, by omega, ?_⟩
    rw [links count (by omega)]
    exact chain

def threaded (vma : Vma) (page last : Nat) : Vma :=
  { vma with
    nodes := setStart (threadNodes page last vma.nodes) (page + 88 * last) vma.freeList
    freeNodeCount := word (vma.freeNodeCount + (last + 1))
    freeList := page
    slabPages := page :: vma.slabPages }

@[simp] theorem threaded_slabPages (vma : Vma) (page last : Nat) :
    (vma.threaded page last).slabPages = page :: vma.slabPages := rfl

@[simp] theorem threaded_inReplenishCycle (vma : Vma) (page last : Nat) :
    (vma.threaded page last).inReplenishCycle = vma.inReplenishCycle := rfl

section Threading

variable {vma : Vma} {shape : Shapes} {chain loose : List Nat} {page last : Nat}

theorem threaded_elsewhere (vma : Vma) (page last : Nat) :
    Elsewhere (pageNodes page (last + 1)) vma.nodes (vma.threaded page last).nodes := by
  rw [pageNodes_succ]
  exact ((threadNodes_elsewhere page last vma.nodes).mono (subset_append_left _ _)).trans
    ((setData_elsewhere _ _ _).mono (subset_append_right _ _))

theorem threaded_chained (chained : Chain vma.startOf vma.freeList chain) (nonzero : page ≠ 0)
    (fresh : ∀ node ∈ chain, node ∉ pageNodes page (last + 1)) :
    Chain (vma.threaded page last).startOf page (pageNodes page (last + 1) ++ chain) := by
  have same := vma.threaded_elsewhere page last
  have kept : Chain (vma.threaded page last).startOf vma.freeList chain :=
    chained.congr (fun node member => startOf_elsewhere same (fresh node member))
  rw [pageNodes_succ, append_assoc]
  have lastLink : (vma.threaded page last).startOf (page + 88 * last) = vma.freeList := by
    unfold startOf region threaded setStart AvlStore.setData
    dsimp only
    rw [update_self]
  have links : ∀ index < last,
      (vma.threaded page last).startOf (page + 88 * index) = page + 88 * (index + 1) := by
    intro index small
    unfold startOf region threaded setStart AvlStore.setData
    dsimp only
    rw [update_of_ne (by omega)]
    exact threadNodes_start page _ _ small
  refine chain_pageNodes nonzero links ⟨rfl, by omega, ?_⟩
  rw [lastLink]
  exact kept

theorem threaded_layout (layout : vma.Layout shape chain loose) (nonzero : page ≠ 0)
    (fresh : ∀ node ∈ pageNodes page (last + 1), node ∉ nodesOf shape chain loose)
    (few : chain.length + (last + 1) < 2 ^ 64) (per : nodesPerPage = last + 1) :
    (vma.threaded page last).Layout shape (pageNodes page (last + 1) ++ chain) loose := by
  have same := vma.threaded_elsewhere page last
  have notTree : ∀ tree, ∀ node ∈ (shape tree).inorder, node ∉ pageNodes page (last + 1) :=
    fun tree node member inside => fresh node inside (mem_nodesOf.mpr (Or.inl ⟨tree, member⟩))
  have perm : (nodesOf shape (pageNodes page (last + 1) ++ chain) loose).Perm
      (pageNodes page (last + 1) ++ nodesOf shape chain loose) := by
    rw [perm_iff_count]
    intro node
    rw [count_append, count_nodesOf, count_nodesOf, count_append]
    omega
  refine
    { linked := fun tree => same.linked (notTree tree) (layout.linked tree)
      rooted := layout.rooted
      callback := fun tree node member =>
        (same.update node (notTree tree node member)).trans (layout.callback tree node member)
      chained := threaded_chained layout.chained nonzero (fun node member inside =>
        fresh node inside (mem_nodesOf.mpr (Or.inr (Or.inl member))))
      counted := ?_
      separate := ?_
      located := ?_ }
  · change word (vma.freeNodeCount + (last + 1)) = _
    rw [layout.counted, word_of_lt few, length_append, pageNodes, length_map,
      length_range, Nat.add_comm]
  · rw [perm.nodup_iff, nodup_append]
    refine ⟨pageNodes_nodup _ _, layout.separate, ?_⟩
    intro node inside other member equal
    exact fresh node inside (equal ▸ member)
  · intro node member
    rcases mem_append.mp (perm.mem_iff.mp member) with inside | old
    · obtain ⟨index, small, is⟩ := mem_pageNodes.mp inside
      exact ⟨page, mem_cons_self, index, per ▸ small, is⟩
    · obtain ⟨slab, member, index, small, is⟩ := layout.located node old
      exact ⟨slab, mem_cons_of_mem _ member, index, small, is⟩

end Threading

/-! ### Changing a tree -/

section Trees

variable {vma : Vma} {shape : Shapes} {chain loose newLoose : List Nat} {tree : KTree}
  {goal : SummaryGoal VmRegion Nat}

section SetTree

variable (vma : Vma) (tree : KTree) (root : Nat) (nodes : AvlStore VmRegion Nat)

@[simp] theorem setTree_nodes : (vma.setTree tree root nodes).nodes = nodes := by
  cases tree <;> rfl

@[simp] theorem setTree_slabPages :
    (vma.setTree tree root nodes).slabPages = vma.slabPages := by
  cases tree <;> rfl

@[simp] theorem setTree_vmm : (vma.setTree tree root nodes).vmm = vma.vmm := by
  cases tree <;> rfl

@[simp] theorem setTree_freeList : (vma.setTree tree root nodes).freeList = vma.freeList := by
  cases tree <;> rfl

@[simp] theorem setTree_freeNodeCount :
    (vma.setTree tree root nodes).freeNodeCount = vma.freeNodeCount := by
  cases tree <;> rfl

@[simp] theorem setTree_inReplenishCycle :
    (vma.setTree tree root nodes).inReplenishCycle = vma.inReplenishCycle := by
  cases tree <;> rfl

theorem setTree_root (other : KTree) :
    (vma.setTree tree root nodes).root other = if other = tree then root else vma.root other := by
  cases tree <;> cases other <;> rfl

end SetTree

variable {result : BinaryTree Nat}

theorem settled_update {old nodes : AvlStore VmRegion Nat} {touched : List Nat} {root : Nat}
    (same : Elsewhere touched old nodes)
    (apart : ∀ other, other ≠ tree → ∀ node ∈ (shape other).inorder, node ∉ touched)
    (settled : ∀ other, old.Settled goal (shape other)) (new : nodes.Settled goal result)
    (owner : KTree) :
    (vma.setTree tree root nodes).nodes.Settled goal (Function.update shape tree result owner) := by
  rw [setTree_nodes]
  by_cases here : owner = tree
  · rw [here, update_self]
    exact new
  · rw [update_of_ne here]
    exact same.settled (apart owner here) (settled owner)

/-- Replace one tree by a tree over the same nodes and `loose` ones. -/
theorem Layout.setTree (layout : vma.Layout shape chain loose) {nodes : AvlStore VmRegion Nat}
    {touched : List Nat}
    (same : AvlStore.SameOutside touched vma.nodes nodes) (linked : nodes.Linked 0 result)
    (callback : ∀ node ∈ result.inorder, vma.nodes.update node = vmAvlUpdateAddress)
    (apart : ∀ other, other ≠ tree → ∀ node ∈ (shape other).inorder, node ∉ touched)
    (perm : (nodesOf (Function.update shape tree result) chain newLoose).Perm
      (nodesOf shape chain loose)) :
    (vma.setTree tree (rootOf result) nodes).Layout (Function.update shape tree result) chain
      newLoose := by
  refine
    { linked := ?_
      rooted := ?_
      callback := ?_
      chained := ?_
      counted := by rw [setTree_freeNodeCount]; exact layout.counted
      separate := perm.nodup_iff.mpr layout.separate
      located := ?_ }
  · intro other
    rw [setTree_nodes]
    by_cases here : other = tree
    · rw [here, update_self]
      exact linked
    · rw [update_of_ne here]
      exact (layout.linked other).outside same (apart other here)
  · intro other
    rw [setTree_root]
    by_cases here : other = tree
    · rw [if_pos here, here, update_self]
    · rw [if_neg here, update_of_ne here]
      exact layout.rooted other
  · intro other node member
    rw [setTree_nodes, same.update]
    by_cases here : other = tree
    · rw [here, update_self] at member
      exact callback node member
    · rw [update_of_ne here] at member
      exact layout.callback other node member
  · rw [setTree_freeList]
    refine layout.chained.congr (fun node _ => ?_)
    unfold startOf region
    rw [setTree_nodes, same.data]
  · intro node member
    unfold InSlab
    rw [setTree_slabPages]
    exact layout.located node (perm.mem_iff.mp member)

theorem nodesOf_grow_perm {new : Nat}
    (grown : result.inorder.Perm (new :: (shape tree).inorder)) :
    (nodesOf (Function.update shape tree result) chain loose).Perm
      (nodesOf shape chain (new :: loose)) := by
  rw [perm_iff_count]
  intro node
  have counts := grown.count_eq node
  simp only [count_cons, beq_iff_eq] at counts
  rw [count_nodesOf, count_nodesOf, count_cons]
  cases tree <;> simp <;> omega

theorem nodesOf_shrink_perm {old : Nat}
    (shrunk : (old :: result.inorder).Perm (shape tree).inorder) :
    (nodesOf (Function.update shape tree result) chain (old :: loose)).Perm
      (nodesOf shape chain loose) := by
  rw [perm_iff_count]
  intro node
  have counts := shrunk.count_eq node
  simp only [count_cons, beq_iff_eq] at counts
  rw [count_nodesOf, count_nodesOf, count_cons]
  cases tree <;> simp <;> omega

def goesLeft (vma : Vma) (key node : Nat) : Bool :=
  decide (vmAvlCompAddr key (vma.region node) > 0)

variable (establishes :
  ∀ region left right, goal region left right (vmAvlUpdate region left right))

include establishes

theorem insert_layout {new key : Nat} (layout : vma.Layout shape chain (new :: loose))
    (present : shape tree ≠ nil) (fresh : vma.nodes.FreshLeaf goal new)
    (callback : vma.nodes.update new = vmAvlUpdateAddress)
    (short : (shape tree).inorder.length ≤ treeFuel)
    (off : vma.nodes.SettledOff goal (vma.goesLeft key) (shape tree)) :
    ∃ nodes, AvlStore.avlInsert vmCallbacks (vmAvlCompAddr key) treeFuel (vma.root tree) new
          vma.nodes = .ok (rootOf (insertTree (vma.goesLeft key) new (shape tree)), nodes) ∧
      (vma.setTree tree (rootOf (insertTree (vma.goesLeft key) new (shape tree))) nodes).Layout
        (Function.update shape tree (insertTree (vma.goesLeft key) new (shape tree))) chain loose ∧
      nodes.Settled goal (insertTree (vma.goesLeft key) new (shape tree)) ∧
      AvlStore.SameOutside (new :: (shape tree).inorder) vma.nodes nodes := by
  have newLoose : new ∉ (shape tree).inorder := fun member =>
    layout.not_loose member mem_cons_self
  have ready : ∀ pointer ∈ new :: (shape tree).inorder,
      vma.nodes.Ready vmCallbacks goal pointer := by
    intro pointer member
    rcases mem_cons.mp member with same | inTree
    · rw [same]
      refine Or.inr ⟨?_, vmAvlUpdate, ?_, fun left right => establishes _ left right⟩
      · rw [callback]
        decide
      · rw [callback]
        rfl
    · exact layout.ready establishes inTree
  have tall := Nat.le_trans (height_le_length (shape tree)) short
  obtain ⟨nodes, run, linked, settled, same⟩ := AvlStore.avlInsertRec_inserts (vmAvlCompAddr key)
    (shape tree) vma.nodes 0 treeFuel present tall (layout.linked tree)
    (nodup_cons.mpr ⟨newLoose, layout.tree_nodup tree⟩) fresh ready off
  have perm := insertTree_perm (vma.goesLeft key) new (shape tree)
  refine ⟨nodes, ?_, layout.setTree same linked ?_ ?_ (nodesOf_grow_perm perm), settled, same⟩
  · unfold AvlStore.avlInsert
    rw [layout.rooted, if_neg ((layout.linked tree).root_ne_zero present)]
    exact run
  · intro node member
    rcases mem_cons.mp (perm.mem_iff.mp member) with same | inTree
    · rw [same]
      exact callback
    · exact layout.callback tree node inTree
  · exact layout.apart_grown (fun owner member => layout.not_loose member mem_cons_self)

theorem remove_layout {node : Nat} {frames : List (Frame Nat)} {left right : BinaryTree Nat}
    (layout : vma.Layout shape chain loose)
    (found : focus node (shape tree) = some (frames, left, right))
    (around : AvlStore.SettledAround goal vma.nodes frames left right)
    (detached : detach node (shape tree) = some result)
    (short : (shape tree).inorder.length + 2 < treeFuel) :
    ∃ nodes, removeFromTree tree node vma = .ok (vma.setTree tree (rootOf result) nodes) ∧
      (vma.setTree tree (rootOf result) nodes).Layout (Function.update shape tree result) chain
        (node :: loose) ∧
      nodes.Settled goal result ∧ AvlStore.SameOutside (shape tree).inorder vma.nodes nodes := by
  have nodup := layout.tree_nodup tree
  obtain ⟨nodes, run, linked, settled, same⟩ := AvlStore.avlRemove_detaches (layout.linked tree)
    nodup (fun other member => layout.ready establishes member) short found around detached
  obtain ⟨front, back, order⟩ := append_of_mem (focus_of_detach detached).1
  have perm : (node :: result.inorder).Perm (shape tree).inorder := by
    rw [detach_inorder nodup order detached, order]
    exact perm_middle.symm
  refine ⟨nodes, ?_, layout.setTree same linked ?_ ?_ (nodesOf_shrink_perm perm), settled, same⟩
  · unfold removeFromTree
    rw [layout.rooted, run, ok_bind]
    rfl
  · exact fun other member =>
      layout.callback tree other (perm.mem_iff.mp (mem_cons_of_mem _ member))
  · exact layout.apart_tree

end Trees

end Vma

end Fesos
