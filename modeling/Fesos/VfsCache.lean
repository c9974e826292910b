/-
The node cache of the VFS.

`vfs_tree` holds the nodes that vfs_finddir made, ordered by mountpoint and inode.
As long as kmalloc hands out blocks whose AVL fields are zero and that are not in
the tree, vfs_finddir keeps the tree in order and changes no node that was there.
-/

import Fesos.AvlWellFormed
import Fesos.VfsCounts

set_option autoImplicit false

namespace Fesos

open BinaryTree Library Function
open List hiding nil

/-! ### The order of keys -/

theorem vfsCompare_order (first second : VfsKey) :
    (vfsCompare first second < 0 ↔ first.mountpoint < second.mountpoint ∨
      first.mountpoint = second.mountpoint ∧ first.inode < second.inode) ∧
    (0 < vfsCompare first second ↔ second.mountpoint < first.mountpoint ∨
      second.mountpoint = first.mountpoint ∧ second.inode < first.inode) := by
  unfold vfsCompare
  split_ifs <;> omega

theorem vfsCompare_eq_zero_iff (first second : VfsKey) :
    vfsCompare first second = 0 ↔ first = second := by
  have order := vfsCompare_order first second
  constructor
  · intro zero
    rw [zero] at order
    have mountpoint : first.mountpoint = second.mountpoint := by omega
    have inode : first.inode = second.inode := by omega
    cases first
    cases second
    exact congrArg₂ VfsKey.mk mountpoint inode
  · intro same
    rw [same] at order ⊢
    omega

theorem vfsCompare_preorder :
    AvlStore.TotalPreorder (fun first second : VfsNode => vfsCompare first.key second.key) where
  swap := by
    intro first second
    rw [(vfsCompare_order _ _).1, (vfsCompare_order _ _).2]
  trans := by
    intro first second third before behind
    rw [← not_lt, (vfsCompare_order _ _).2] at before behind ⊢
    omega

namespace Vfs

/-! ### The tree -/

structure Ordered (vfs : Vfs) (shape : BinaryTree Nat) : Prop where
  rooted : vfs.treeRoot = rootOf shape
  linked : vfs.nodes.Linked 0 shape
  settled : vfs.nodes.Settled (fun _ _ _ _ => True) shape
  balanced : shape.Balanced
  plain : ∀ pointer ∈ shape.inorder, vfs.nodes.update pointer = 0
  sorted : shape.inorder.Pairwise (fun first second =>
    vfsCompare (vfs.node first).key (vfs.node second).key < 0)
  addresses : ∀ pointer ∈ shape.inorder, pointer < 2 ^ 64

/-- What kmalloc is going to return: blocks that are not in the tree, each once,
with AVL fields of zero. -/
structure Stocked (vfs : Vfs) (shape : BinaryTree Nat) : Prop where
  blank : ∀ block ∈ vfs.supply, block.parent = 0 ∧ block.left = 0 ∧ block.right = 0 ∧
    block.subtreeMaxDepth = 0 ∧ block.update = 0
  fresh : ∀ block ∈ vfs.supply, block.address ∉ shape.inorder
  distinct : vfs.supply.Pairwise (fun first second =>
    first.address ≠ 0 → first.address ≠ second.address)
  addresses : ∀ block ∈ vfs.supply, block.address < 2 ^ 64

namespace Ordered

variable {vfs : Vfs} {shape : BinaryTree Nat}

section

variable (ordered : vfs.Ordered shape)

include ordered

theorem nodup : shape.inorder.Nodup := by
  apply ordered.sorted.imp
  intro first second before same
  rw [same, (vfsCompare_eq_zero_iff _ _).mpr rfl] at before
  exact absurd before (lt_irrefl 0)

theorem height_lt : shape.height < vfsFuel := by
  have few : shape.inorder.length ≤ 2 ^ 64 := by
    rw [← toFinset_card_of_nodup ordered.nodup]
    have inside : shape.inorder.toFinset ⊆ Finset.range (2 ^ 64) := by
      intro pointer member
      exact Finset.mem_range.mpr (ordered.addresses pointer (mem_toFinset.mp member))
    have counted := Finset.card_le_card inside
    rw [Finset.card_range] at counted
    exact counted
  have many := ordered.balanced.two_pow_le
  have low : shape.height / 2 < 65 := by
    by_contra high
    have grown : 2 ^ 65 ≤ 2 ^ (shape.height / 2) :=
      Nat.pow_le_pow_right (by decide) (Nat.le_of_not_lt high)
    omega
  unfold vfsFuel
  omega

theorem cached_eq (key : VfsKey) :
    vfs.cached key = .ok ((shape.search (fun pointer =>
      vfsCompare (vfs.node pointer).key key)).getD 0) := by
  unfold cached
  rw [ordered.rooted, AvlStore.avlGetNode_search _ ordered.linked ordered.height_lt]
  rfl

theorem cached_member {pointer : Nat}
    (member : pointer ∈ shape.inorder) : vfs.cached (vfs.node pointer).key = .ok pointer := by
  obtain ⟨front, back, order⟩ := append_of_mem member
  have sorted := ordered.sorted
  rw [order] at sorted
  obtain ⟨_, behind, ahead⟩ := pairwise_append.mp sorted
  have found : shape.search (fun other =>
      vfsCompare (vfs.node other).key (vfs.node pointer).key) = some pointer := by
    apply search_found (fun other => vfsCompare (vfs.node other).key (vfs.node pointer).key)
      ((vfsCompare_eq_zero_iff _ _).mpr rfl) shape order
    · intro other inFront
      exact ahead other inFront pointer mem_cons_self
    · intro other inBack
      exact (vfsCompare_preorder.swap _ _).mpr ((pairwise_cons.mp behind).1 other inBack)
  rw [ordered.cached_eq, found]
  rfl

theorem cached_cases (key : VfsKey) :
    (vfs.cached key = .ok 0 ∧ ∀ pointer ∈ shape.inorder, (vfs.node pointer).key ≠ key) ∨
      ∃ found ∈ shape.inorder, vfs.cached key = .ok found ∧ (vfs.node found).key = key := by
  by_cases present : ∃ pointer ∈ shape.inorder, (vfs.node pointer).key = key
  · obtain ⟨pointer, member, same⟩ := present
    refine Or.inr ⟨pointer, member, ?_, same⟩
    rw [← same]
    exact ordered.cached_member member
  have absent : ∀ pointer ∈ shape.inorder, (vfs.node pointer).key ≠ key :=
    fun pointer member same => present ⟨pointer, member, same⟩
  refine Or.inl ⟨?_, absent⟩
  rw [ordered.cached_eq]
  cases search : shape.search (fun pointer => vfsCompare (vfs.node pointer).key key) with
  | none => rfl
  | some found =>
    obtain ⟨member, zero⟩ := search_some search
    exact absurd ((vfsCompare_eq_zero_iff _ _).mp zero) (absent found member)

end

end Ordered

theorem settled_depths {before after : AvlStore VfsNode Unit} {tree : BinaryTree Nat}
    (depths : after.subtreeMaxDepth = before.subtreeMaxDepth)
    (settled : before.Settled (fun _ _ _ _ => True) tree) :
    after.Settled (fun _ _ _ _ => True) tree := by
  induction tree with
  | nil => trivial
  | node pointer left right leftIh rightIh =>
    obtain ⟨depth, _, leftSettled, rightSettled⟩ := settled
    rw [← depths] at depth
    exact ⟨depth, trivial, leftIh leftSettled, rightIh rightSettled⟩

theorem Ordered.congr {vfs after : Vfs} {shape : BinaryTree Nat} (ordered : vfs.Ordered shape)
    (links : after.nodes = { vfs.nodes with data := after.nodes.data })
    (keys : ∀ node, (after.node node).key = (vfs.node node).key)
    (treeRoot : after.treeRoot = vfs.treeRoot) : after.Ordered shape := by
  constructor
  · rw [treeRoot]
    exact ordered.rooted
  · rw [links]
    exact ordered.linked.transport (fun _ _ => rfl) (fun _ _ => rfl) (fun _ _ => rfl)
  · have depths : after.nodes.subtreeMaxDepth = vfs.nodes.subtreeMaxDepth := by
      rw [links]
    exact settled_depths depths ordered.settled
  · exact ordered.balanced
  · rw [links]
    exact ordered.plain
  · simp only [keys]
    exact ordered.sorted
  · exact ordered.addresses

theorem Stocked.congr {vfs after : Vfs} {shape : BinaryTree Nat} (stocked : vfs.Stocked shape)
    (supply : after.supply = vfs.supply) : after.Stocked shape := by
  constructor
  · rw [supply]
    exact stocked.blank
  · rw [supply]
    exact stocked.fresh
  · rw [supply]
    exact stocked.distinct
  · rw [supply]
    exact stocked.addresses

/-! ### Creating a node -/

structure Created (mountpoint : Nat) (name : List Char) (nodeData : VfsNodeData) (new : Nat)
    (before after : Vfs) (shape result : BinaryTree Nat) : Prop where
  ordered : after.Ordered result
  stocked : after.Stocked result
  members : result.inorder.Perm (new :: shape.inorder)
  absent : new ∉ shape.inorder
  taken : ∃ block, before.supply = block :: after.supply ∧ block.address = new ∧
    after.node new = describe block.content mountpoint name nodeData
  others : ∀ other, other ≠ new → after.node other = before.node other
  allocated : after.allocated = new :: before.allocated
  rootNode : after.rootNode = before.rootNode

section Creation

variable {vfs after : Vfs} {shape : BinaryTree Nat} {mountpoint new : Nat} {name : List Char}
  {nodeData : VfsNodeData} {block : VfsBlock} {rest : List VfsBlock}

/-- The state before the insertion: the block is allocated and described. -/
def prepared (vfs : Vfs) (block : VfsBlock) (rest : List VfsBlock) (value : VfsNode) : Vfs :=
  { vfs with
    nodes := (load vfs.nodes block).setData block.address value
    supply := rest
    allocated := block.address :: vfs.allocated }

theorem createNode_eq (supply : vfs.supply = block :: rest) (real : block.address ≠ 0) :
    createNode mountpoint name nodeData vfs =
      if name.length > nameCapacity then .error (.nameOverflow name.length)
      else (do
        let described := vfs.prepared block rest (describe block.content mountpoint name nodeData)
        let inserted ← AvlStore.avlInsert vfsCallbacks
          (fun other => vfsCompare other.key ⟨mountpoint, nodeData.inode⟩) vfsFuel
          vfs.treeRoot block.address described.nodes
        pure (block.address, { described with treeRoot := inserted.1, nodes := inserted.2 })) := by
  have allocation : vfs.kmalloc = (block.address,
      { vfs with
        nodes := load vfs.nodes block
        supply := rest
        allocated := block.address :: vfs.allocated }) := by
    unfold kmalloc
    rw [supply]
    exact if_neg real
  have content : (load vfs.nodes block).data block.address = block.content :=
    update_self _ _ _
  unfold createNode
  rw [allocation]
  dsimp only
  rw [if_neg real]
  unfold node
  dsimp only
  rw [content]
  rfl

theorem prepared_node (value : VfsNode) (other : Nat) :
    (vfs.prepared block rest value).node other =
      if other = block.address then value else vfs.node other := by
  unfold prepared node AvlStore.setData load
  by_cases same : other = block.address
  · rw [if_pos same, same]
    exact update_self _ _ _
  · rw [if_neg same]
    exact (update_of_ne same _ _).trans (update_of_ne same _ _)

theorem prepared_links (vfs : Vfs) (rest : List VfsBlock) (value : VfsNode) {other : Nat}
    (different : other ≠ block.address) :
    (vfs.prepared block rest value).nodes.parent other = vfs.nodes.parent other ∧
      (vfs.prepared block rest value).nodes.left other = vfs.nodes.left other ∧
      (vfs.prepared block rest value).nodes.right other = vfs.nodes.right other ∧
      (vfs.prepared block rest value).nodes.subtreeMaxDepth other =
        vfs.nodes.subtreeMaxDepth other ∧
      (vfs.prepared block rest value).nodes.update other = vfs.nodes.update other :=
  ⟨update_of_ne different _ _, update_of_ne different _ _,
    update_of_ne different _ _, update_of_ne different _ _,
    update_of_ne different _ _⟩

theorem prepared_own (vfs : Vfs) (block : VfsBlock) (rest : List VfsBlock) (value : VfsNode) :
    (vfs.prepared block rest value).nodes.parent block.address = block.parent ∧
      (vfs.prepared block rest value).nodes.left block.address = block.left ∧
      (vfs.prepared block rest value).nodes.right block.address = block.right ∧
      (vfs.prepared block rest value).nodes.subtreeMaxDepth block.address =
        block.subtreeMaxDepth ∧
      (vfs.prepared block rest value).nodes.update block.address = block.update :=
  ⟨update_self _ _ _, update_self _ _ _, update_self _ _ _,
    update_self _ _ _, update_self _ _ _⟩

/-- A block outside the tree can be prepared without touching the tree. -/
theorem Ordered.prepared (ordered : vfs.Ordered shape) (fresh : block.address ∉ shape.inorder)
    (rest : List VfsBlock) (value : VfsNode) : (vfs.prepared block rest value).Ordered shape := by
  have apart : ∀ pointer ∈ shape.inorder, pointer ≠ block.address := by
    intro pointer member same
    rw [same] at member
    exact fresh member
  have links := fun pointer member => prepared_links vfs rest value (apart pointer member)
  have nodes : ∀ pointer ∈ shape.inorder,
      (vfs.prepared block rest value).node pointer = vfs.node pointer := by
    intro pointer member
    rw [prepared_node, if_neg (apart pointer member)]
  constructor
  · exact ordered.rooted
  · exact ordered.linked.transport (fun pointer member => (links pointer member).1)
      (fun pointer member => (links pointer member).2.1)
      (fun pointer member => (links pointer member).2.2.1)
  · exact ordered.settled.transport (fun pointer member => (links pointer member).2.2.2.1)
      (fun _ _ => rfl) nodes
  · exact ordered.balanced
  · intro pointer member
    rw [(links pointer member).2.2.2.2]
    exact ordered.plain pointer member
  · apply ordered.sorted.imp_of_mem
    intro first second firstIn secondIn before
    rw [nodes first firstIn, nodes second secondIn]
    exact before
  · exact ordered.addresses

/-- `avl_insert` puts a prepared node whose key is new into the tree. -/
theorem Ordered.insert {inserted : Nat × AvlStore VfsNode Unit}
    (ordered : vfs.Ordered shape) (fresh : new ∉ shape.inorder) (small : new < 2 ^ 64)
    (leaf : vfs.nodes.FreshLeaf (fun _ _ _ _ => True) new) (top : vfs.nodes.parent new = 0)
    (plain : vfs.nodes.update new = 0)
    (different : ∀ pointer ∈ shape.inorder, (vfs.node pointer).key ≠ (vfs.node new).key)
    (run : AvlStore.avlInsert vfsCallbacks
      (fun other => vfsCompare other.key (vfs.node new).key) vfsFuel vfs.treeRoot new vfs.nodes =
        .ok inserted) :
    ∃ result, ({ vfs with treeRoot := inserted.1, nodes := inserted.2 } : Vfs).Ordered result ∧
      result.inorder.Perm (new :: shape.inorder) ∧ inserted.2.data = vfs.nodes.data := by
  unfold AvlStore.avlInsert at run
  by_cases empty : shape = nil
  · have noRoot : vfs.treeRoot = 0 := by
      rw [ordered.rooted, empty]
      rfl
    rw [if_pos noRoot] at run
    cases run
    have linked := leaf.linked
    rw [top] at linked
    refine ⟨BinaryTree.node new nil nil, ?_, ?_, rfl⟩
    · constructor
      · rfl
      · exact linked
      · exact leaf.settled
      · exact ⟨by decide, by decide, trivial, trivial⟩
      · intro pointer member
        rw [mem_singleton.mp member]
        exact plain
      · exact pairwise_singleton _ _
      · intro pointer member
        rw [mem_singleton.mp member]
        exact small
    · rw [empty]
      exact List.Perm.refl _
  · have hasRoot : vfs.treeRoot ≠ 0 := by
      rw [ordered.rooted]
      exact ordered.linked.root_ne_zero empty
    have nodup : (new :: shape.inorder).Nodup := nodup_cons.mpr ⟨fresh, ordered.nodup⟩
    have bare : ∀ pointer ∈ new :: shape.inorder, vfs.nodes.update pointer = 0 := by
      exact forall_mem_cons.mpr ⟨plain, ordered.plain⟩
    obtain ⟨after, ran, linked, settled, same⟩ := AvlStore.avlInsertRec_inserts
      (fun other => vfsCompare other.key (vfs.node new).key) shape vfs.nodes 0 vfsFuel empty
      (Nat.le_of_lt ordered.height_lt) ordered.linked nodup leaf
      (fun pointer member => Or.inl ⟨bare pointer member, fun _ _ _ => trivial⟩)
      (ordered.settled.off _)
    rw [if_neg hasRoot, ordered.rooted, ran] at run
    cases run
    obtain ⟨front, back, split, frontLow, backHigh⟩ := AvlStore.sorted_split vfsCompare_preorder
      vfs.nodes.data (vfs.node new) (ordered.sorted.imp (fun before => Int.le_of_lt before))
    have order := insertTree_inorder
      (fun pointer => decide (vfsCompare (vfs.nodes.data pointer).key (vfs.node new).key > 0)) new
      shape split
      (fun pointer member => decide_eq_false (Int.not_lt.mpr (frontLow pointer member)))
      (fun pointer member => decide_eq_true (backHigh pointer member))
    have members := insertTree_perm
      (fun pointer => decide (vfsCompare (vfs.nodes.data pointer).key (vfs.node new).key > 0)) new
      shape
    refine ⟨_, ?_, members, same.data⟩
    constructor
    · rfl
    · exact linked
    · exact settled
    · exact (insertTree_balanced _ new ordered.balanced).1
    · intro pointer member
      rw [same.update]
      exact bare pointer (members.mem_iff.mp member)
    · change List.Pairwise (fun first second =>
        vfsCompare (after.data first).key (after.data second).key < 0) _
      rw [order, same.data]
      have sorted := ordered.sorted
      rw [split] at sorted different
      obtain ⟨frontSorted, backSorted, across⟩ := pairwise_append.mp sorted
      apply pairwise_append.mpr
      refine ⟨frontSorted, pairwise_cons.mpr ⟨?_, backSorted⟩, ?_⟩
      · intro pointer inBack
        exact (vfsCompare_preorder.swap _ _).mp (backHigh pointer inBack)
      · intro pointer inFront other inRest
        rcases mem_cons.mp inRest with isNew | inBack
        · have apart := different pointer (mem_append_left _ inFront)
          rw [isNew]
          exact lt_of_le_of_ne (frontLow pointer inFront)
            (fun zero => apart ((vfsCompare_eq_zero_iff _ _).mp zero))
        · exact across pointer inFront other inBack
    · intro pointer member
      rcases mem_cons.mp (members.mem_iff.mp member) with isNew | old
      · rw [isNew]
        exact small
      · exact ordered.addresses pointer old

theorem Stocked.take {result : BinaryTree Nat} (stocked : vfs.Stocked shape)
    (supply : vfs.supply = block :: rest) (real : block.address ≠ 0) (left : after.supply = rest)
    (members : result.inorder ⊆ block.address :: shape.inorder) : after.Stocked result := by
  have laterIn : ∀ other ∈ after.supply, other ∈ vfs.supply := by
    intro other member
    rw [left] at member
    rw [supply]
    exact mem_cons_of_mem _ member
  have apart := stocked.distinct
  rw [supply, ← left] at apart
  obtain ⟨fromFirst, others⟩ := pairwise_cons.mp apart
  constructor
  · exact fun other member => stocked.blank other (laterIn other member)
  · intro other member inResult
    rcases mem_cons.mp (members inResult) with isNew | old
    · exact fromFirst other member real isNew.symm
    · exact stocked.fresh other (laterIn other member) old
  · exact others
  · exact fun other member => stocked.addresses other (laterIn other member)

/-- A creation that returns has taken a block and inserted it. -/
theorem createNode_ok (run : createNode mountpoint name nodeData vfs = .ok (new, after)) :
    ∃ block rest inserted, vfs.supply = block :: rest ∧ block.address ≠ 0 ∧
      name.length ≤ nameCapacity ∧ AvlStore.avlInsert vfsCallbacks
        (fun other => vfsCompare other.key ⟨mountpoint, nodeData.inode⟩) vfsFuel vfs.treeRoot
        block.address (vfs.prepared block rest
          (describe block.content mountpoint name nodeData)).nodes = .ok inserted ∧
      new = block.address ∧
      after = { vfs.prepared block rest (describe block.content mountpoint name nodeData) with
        treeRoot := inserted.1, nodes := inserted.2 } := by
  cases supply : vfs.supply with
  | nil =>
    unfold createNode kmalloc at run
    rw [supply] at run
    cases run
  | cons block rest =>
    by_cases real : block.address = 0
    · unfold createNode kmalloc at run
      rw [supply] at run
      dsimp only at run
      rw [if_pos real] at run
      cases run
    · rw [createNode_eq supply real] at run
      split at run
      · cases run
      rename_i fits
      obtain ⟨inserted, inserting, isResult⟩ := bind_eq_ok run
      cases isResult
      exact ⟨block, rest, inserted, rfl, real, not_lt.mp fits, inserting, rfl, rfl⟩

theorem createNode_created (ordered : vfs.Ordered shape)
    (stocked : vfs.Stocked shape)
    (different : ∀ pointer ∈ shape.inorder,
      (vfs.node pointer).key ≠ ⟨mountpoint, nodeData.inode⟩)
    (run : createNode mountpoint name nodeData vfs = .ok (new, after)) :
    ∃ result, Created mountpoint name nodeData new vfs after shape result := by
  obtain ⟨block, rest, inserted, supply, real, _, inserting, rfl, rfl⟩ := createNode_ok run
  have inSupply : block ∈ vfs.supply := by
    rw [supply]
    exact mem_cons_self
  have blockFresh := stocked.fresh block inSupply
  generalize madeIs : describe block.content mountpoint name nodeData = made at *
  have madeKey : made.key = ⟨mountpoint, nodeData.inode⟩ := by
    rw [← madeIs]
    rfl
  have own : (vfs.prepared block rest made).node block.address = made :=
    (prepared_node made block.address).trans (if_pos rfl)
  have others : ∀ other, other ≠ block.address →
      (vfs.prepared block rest made).node other = vfs.node other :=
    fun other apart => (prepared_node made other).trans (if_neg apart)
  obtain ⟨ownParent, ownLeft, ownRight, ownDepth, ownUpdate⟩ :=
    prepared_own vfs block rest made
  obtain ⟨parent, left, right, depth, update⟩ := stocked.blank block inSupply
  have leaf : (vfs.prepared block rest made).nodes.FreshLeaf (fun _ _ _ _ => True)
      block.address :=
    ⟨real, ownLeft.trans left, ownRight.trans right, ownDepth.trans depth, trivial⟩
  obtain ⟨result, isOrdered, members, data⟩ :=
    (ordered.prepared blockFresh rest made).insert blockFresh
      (stocked.addresses block inSupply) leaf (ownParent.trans parent)
      (ownUpdate.trans update)
      (by
        intro pointer member
        have apart : pointer ≠ block.address := by
          intro same
          rw [same] at member
          exact blockFresh member
        rw [own, others pointer apart, madeKey]
        exact different pointer member)
      (by
        rw [own, madeKey]
        exact inserting)
  have sameNodes : ∀ other, ({ vfs.prepared block rest made with
      treeRoot := inserted.1, nodes := inserted.2 } : Vfs).node other =
        (vfs.prepared block rest made).node other :=
    fun other => congrFun data other
  refine ⟨result, ?_⟩
  constructor
  · exact isOrdered
  · exact stocked.take supply real rfl (fun other member => members.mem_iff.mp member)
  · exact members
  · exact blockFresh
  · refine ⟨block, supply, rfl, ?_⟩
    rw [sameNodes, own, madeIs]
  · intro other apart
    rw [sameNodes, others other apart]
  · rfl
  · rfl

end Creation

/-! ### Searching a directory -/

/-- The tree has gained nodes, and the other nodes are what they were. -/
structure Grown (before after : Vfs) (shape result : BinaryTree Nat) : Prop where
  ordered : after.Ordered result
  stocked : after.Stocked result
  kept : shape.inorder ⊆ result.inorder
  gained : ∀ node ∈ result.inorder, node ∉ shape.inorder →
    ∃ block ∈ before.supply, block.address = node
  supply : after.supply ⊆ before.supply
  same : ∀ node, (∀ block ∈ before.supply, block.address ≠ node) →
    after.node node = before.node node
  new : ∀ node ∈ result.inorder, node ∉ shape.inorder → (after.node node).mountPtr = 0
  rootNode : after.rootNode = before.rootNode

namespace Grown

variable {before middle after : Vfs} {shape between result : BinaryTree Nat}

theorem refl (ordered : before.Ordered shape) (stocked : before.Stocked shape) :
    Grown before before shape shape :=
  ⟨ordered, stocked, fun _ member => member, fun _ member absent => absurd member absent,
    fun _ member => member, fun _ _ => rfl, fun _ member absent => absurd member absent, rfl⟩

theorem same_member (grown : Grown before after shape result) (stocked : before.Stocked shape)
    {node : Nat} (member : node ∈ shape.inorder) : after.node node = before.node node := by
  apply grown.same
  intro block inSupply isNode
  rw [← isNode] at member
  exact stocked.fresh block inSupply member

theorem trans (first : Grown before middle shape between)
    (second : Grown middle after between result) : Grown before after shape result where
  ordered := second.ordered
  stocked := second.stocked
  kept := fun _ member => second.kept (first.kept member)
  gained := by
    intro node member absent
    by_cases early : node ∈ between.inorder
    · exact first.gained node early absent
    · obtain ⟨block, inSupply, isNode⟩ := second.gained node member early
      exact ⟨block, first.supply inSupply, isNode⟩
  supply := fun _ member => first.supply (second.supply member)
  same := by
    intro node apart
    rw [second.same node (fun block member => apart block (first.supply member)),
      first.same node apart]
  new := by
    intro node member absent
    by_cases early : node ∈ between.inorder
    · rw [second.same_member first.stocked early]
      exact first.new node early absent
    · exact second.new node member early
  rootNode := second.rootNode.trans first.rootNode

theorem kfree (grown : Grown before after shape result) (node : Nat) :
    Grown before (after.kfree node) shape result :=
  ⟨⟨grown.ordered.rooted, grown.ordered.linked, grown.ordered.settled, grown.ordered.balanced,
    grown.ordered.plain, grown.ordered.sorted, grown.ordered.addresses⟩,
    ⟨grown.stocked.blank, grown.stocked.fresh, grown.stocked.distinct, grown.stocked.addresses⟩,
    grown.kept, grown.gained, grown.supply, grown.same, grown.new, grown.rootNode⟩

end Grown

section Directories

variable {vfs after : Vfs} {shape result : BinaryTree Nat} {drivers : VfsDrivers}
  {mountpoint new found current : Nat} {name : List Char} {nodeData : VfsNodeData}

theorem Created.grown (created : Created mountpoint name nodeData new vfs after shape result) :
    Grown vfs after shape result where
  ordered := created.ordered
  stocked := created.stocked
  kept := fun _ member => created.members.mem_iff.mpr (mem_cons_of_mem _ member)
  gained := by
    obtain ⟨block, supply, isNew, _⟩ := created.taken
    intro node member absent
    rcases mem_cons.mp (created.members.mem_iff.mp member) with same | old
    · refine ⟨block, ?_, isNew.trans same.symm⟩
      rw [supply]
      exact mem_cons_self
    · exact absurd old absent
  supply := by
    obtain ⟨block, supply, _⟩ := created.taken
    rw [supply]
    exact subset_cons_self _ _
  same := by
    obtain ⟨block, supply, isNew, _⟩ := created.taken
    intro node apart
    apply created.others
    intro same
    apply apart block
    · rw [supply]
      exact mem_cons_self
    · rw [isNew, same]
  new := by
    obtain ⟨block, _, _, isNode⟩ := created.taken
    intro node member absent
    rcases mem_cons.mp (created.members.mem_iff.mp member) with isNew | old
    · rw [isNew, isNode]
      rfl
    · exact absurd old absent
  rootNode := created.rootNode

/-- What `vfs_finddir` comes to: NULL, a node of the cache or a new one. -/
theorem vfsFinddir_cases {name : Option (List Char)}
    (run : vfsFinddir drivers current name vfs = .ok (found, after)) :
    (found, after) = (0, vfs) ∨
      ∃ nodeData given, let mountpoint := (vfs.node (vfs.redirect current)).mountpoint
        (found ≠ 0 ∧ vfs.cached ⟨mountpoint, nodeData.inode⟩ = .ok found ∧ after = vfs) ∨
        (vfs.cached ⟨mountpoint, nodeData.inode⟩ = .ok 0 ∧
          createNode mountpoint given nodeData vfs = .ok (found, after)) := by
  unfold vfsFinddir at run
  cases name with
  | none => exact Or.inl (Except.ok.inj run).symm
  | some name =>
    dsimp only at run
    split at run
    · exact Or.inl (Except.ok.inj run).symm
    split at run
    · exact Or.inl (Except.ok.inj run).symm
    split at run
    · exact Or.inl (Except.ok.inj run).symm
    rename_i finddir _
    split at run
    · exact Or.inl (Except.ok.inj run).symm
    obtain ⟨cachedNode, caching, rest⟩ := bind_eq_ok run
    refine Or.inr ⟨finddir (vfs.node (vfs.redirect current)) name, name, ?_⟩
    split at rest
    · rename_i missing
      rw [missing] at caching
      exact Or.inr ⟨caching, rest⟩
    · rename_i real
      cases rest
      exact Or.inl ⟨real, caching, rfl⟩

/-- What `vfs_finddir` does to the tree and to the heap. -/
theorem vfsFinddir_grown {name : Option (List Char)} (ordered : vfs.Ordered shape)
    (stocked : vfs.Stocked shape)
    (run : vfsFinddir drivers current name vfs = .ok (found, after)) :
    ∃ result, Grown vfs after shape result ∧ (found = 0 ∨ found ∈ result.inorder) ∧
      vfs.allocated ⊆ after.allocated ∧
      (shape.inorder ⊆ vfs.allocated → result.inorder ⊆ after.allocated) := by
  rcases vfsFinddir_cases run with nothing | ⟨nodeData, given, hit | ⟨missing, creating⟩⟩
  · obtain ⟨rfl, rfl⟩ := Prod.mk.inj nothing
    exact ⟨shape, Grown.refl ordered stocked, Or.inl rfl, fun _ member => member,
      fun live => live⟩
  · obtain ⟨real, caching, rfl⟩ := hit
    rcases ordered.cached_cases ⟨(after.node (after.redirect current)).mountpoint,
      nodeData.inode⟩ with ⟨missing, _⟩ | ⟨member, inTree, found, _⟩
    · rw [missing] at caching
      exact absurd (Except.ok.inj caching).symm real
    rw [found] at caching
    cases caching
    exact ⟨shape, Grown.refl ordered stocked, Or.inr inTree, fun _ member => member,
      fun live => live⟩
  · rcases ordered.cached_cases ⟨(vfs.node (vfs.redirect current)).mountpoint,
      nodeData.inode⟩ with ⟨_, different⟩ | ⟨member, inTree, found, _⟩
    · obtain ⟨result, created⟩ := createNode_created ordered stocked different creating
      refine ⟨result, created.grown, Or.inr ?_, ?_, ?_⟩
      · exact created.members.mem_iff.mpr mem_cons_self
      · rw [created.allocated]
        exact subset_cons_self _ _
      · intro live node inResult
        rw [created.allocated]
        rcases mem_cons.mp (created.members.mem_iff.mp inResult) with isNew | old
        · rw [isNew]
          exact mem_cons_self
        · exact mem_cons_of_mem _ (live old)
    · rw [found] at missing
      exact absurd (Except.ok.inj missing) (ordered.linked.ne_zero inTree)

/-! ### Nodes that no call touches -/

/-- Only blocks still to be allocated have changed; this holds in every state. -/
structure Kept (before after : Vfs) : Prop where
  supply : after.supply ⊆ before.supply
  same : ∀ node, (∀ block ∈ before.supply, block.address ≠ node) →
    after.node node = before.node node

theorem Kept.refl (vfs : Vfs) : Kept vfs vfs := ⟨fun _ member => member, fun _ _ => rfl⟩

theorem Kept.trans {before middle after : Vfs} (first : Kept before middle)
    (second : Kept middle after) : Kept before after := by
  refine ⟨fun _ member => first.supply (second.supply member), fun node unsupplied => ?_⟩
  rw [second.same node (fun block member => unsupplied block (first.supply member)),
    first.same node unsupplied]

theorem vfsFinddir_kept {name : Option (List Char)}
    (run : vfsFinddir drivers current name vfs = .ok (found, after)) : Kept vfs after := by
  rcases vfsFinddir_cases run with nothing | ⟨nodeData, given, ⟨_, _, rfl⟩ | ⟨_, creating⟩⟩
  · rw [(Prod.mk.inj nothing).2]
    exact Kept.refl vfs
  · exact Kept.refl after
  · obtain ⟨block, rest, inserted, supply, _, _, inserting, _, rfl⟩ := createNode_ok creating
    constructor
    · rw [supply]
      exact subset_cons_self _ _
    · intro node unsupplied
      have other : node ≠ block.address := (unsupplied block (by
        rw [supply]
        exact mem_cons_self)).symm
      have data := congrFun (AvlStore.avlInsert_keeps_data inserting) node
      exact data.trans ((prepared_node _ node).trans (if_neg other))

end Directories

end Vfs

end Fesos
