/-
Changing one region of a sound state: a new label in place, or a cut in two with
the rear half inserted as a region of its own.
-/

import Fesos.VmaRegions

set_option autoImplicit false

namespace Fesos

open BinaryTree Library Function
open List hiding nil

namespace Vma

def OrdersCorrectly (vma : Vma) (shape : BinaryTree Nat) (key : Nat) : Prop :=
  ∀ node ∈ shape.inorder, (vmAvlCompAddr key (vma.region node) > 0 ↔ key < vma.startOf node) ∧
    (vmAvlCompAddr key (vma.region node) = 0 ↔ vma.startOf node = key)

instance (vma : Vma) (shape : BinaryTree Nat) (key : Nat) :
    Decidable (vma.OrdersCorrectly shape key) :=
  inferInstanceAs (Decidable (∀ node ∈ shape.inorder,
    (vmAvlCompAddr key (vma.region node) > 0 ↔ key < vma.startOf node) ∧
      (vmAvlCompAddr key (vma.region node) = 0 ↔ vma.startOf node = key)))

section Whole

variable {vma : Vma} {shape : Shapes} {chain loose : List Nat} {tree : KTree} {node : Nat}
  {goal : SummaryGoal VmRegion Nat}

theorem setRegion_region (vma : Vma) (node other : Nat) (region : VmRegion) :
    (vma.setRegion node region).region other = if other = node then region else vma.region other := by
  unfold setRegion Vma.region AvlStore.setData
  simp only [update_apply]

theorem setRegion_span (region : VmRegion) (startSame : region.startAddr = vma.startOf node)
    (sizeSame : region.size = vma.sizeOf node) (other : Nat) :
    (vma.setRegion node region).startOf other = vma.startOf other ∧
      (vma.setRegion node region).sizeOf other = vma.sizeOf other := by
  unfold startOf sizeOf
  rw [setRegion_region]
  by_cases here : other = node
  · rw [if_pos here, here]
    exact ⟨startSame, sizeSame⟩
  · rw [if_neg here]
    exact ⟨rfl, rfl⟩

/-- A new type, flags or backing for a region; a slab page stays in use. -/
theorem Sound.relabel (sound : vma.Sound goal shape chain loose)
    (member : node ∈ (shape tree).inorder) (region : VmRegion)
    (startSame : region.startAddr = vma.startOf node) (sizeSame : region.size = vma.sizeOf node)
    (slab : (vma.region node).type ≠ .free → vma.startOf node ∈ vma.slabPages →
      region.type ≠ .free)
    (met : ∀ frames left right, shape tree = plug frames (BinaryTree.node node left right) →
      goal region (vma.nodes.top left) (vma.nodes.top right) (vma.nodes.summary node)) :
    (vma.setRegion node region).Sound goal shape chain loose := by
  have same := setRegion_span region startSame sizeSame
  refine ⟨sound.layout.setRegion (sound.layout.not_chain member) region, ⟨?_, ?_, ?_⟩, ?_⟩
  · exact fun other => (sound.geometry.tiles other).congr (fun node _ => (same node).1)
      (fun node _ => (same node).2)
  · intro other item inTree
    rw [(same item).2]
    exact sound.geometry.pages other item inTree
  · intro page inSlabs
    obtain ⟨item, inHeap, startIs, sizeIs, busy⟩ := sound.geometry.slabs page inSlabs
    refine ⟨item, inHeap, (same item).1.trans startIs, (same item).2.trans sizeIs, ?_⟩
    rw [setRegion_region]
    by_cases here : item = node
    · rw [if_pos here]
      rw [here] at startIs busy
      exact slab busy (startIs ▸ inSlabs)
    · rw [if_neg here]
      exact busy
  · intro other
    refine (sound.settled other).setData ?_
    intro frames left right is
    have inOther : node ∈ (shape other).inorder := by
      rw [is, (plug_perm _ _).mem_iff]
      simp
    by_cases same : other = tree
    · exact met frames left right (same ▸ is)
    · exact absurd inOther (sound.layout.trees_apart same member)

end Whole

/-! ### Cutting a region in two -/

theorem initVmDsNode_elsewhere (store : AvlStore VmRegion Nat) (node start size : Nat)
    (type : VmNodeType) (callback : Nat) :
    Elsewhere [node] store (initVmDsNode store node start size type callback) :=
  ((setData_elsewhere _ _ _).trans (setSummary_elsewhere _ _ _)).trans (avlInit_elsewhere _ _ _)

/-- A node as `init_vm_ds_node` leaves it. -/
theorem initVmDsNode_fields (store : AvlStore VmRegion Nat) {node : Nat} (nonzero : node ≠ 0)
    (start size : Nat) (type : VmNodeType) (callback : Nat) :
    (initVmDsNode store node start size type callback).left node = 0 ∧
      (initVmDsNode store node start size type callback).right node = 0 ∧
      (initVmDsNode store node start size type callback).parent node = 0 ∧
      (initVmDsNode store node start size type callback).subtreeMaxDepth node = 0 ∧
      (initVmDsNode store node start size type callback).update node = callback ∧
      (initVmDsNode store node start size type callback).summary node = size ∧
      (initVmDsNode store node start size type callback).data node =
        { store.data node with startAddr := start, size := size, type := type } := by
  unfold initVmDsNode AvlStore.avlInit
  rw [if_neg nonzero]
  simp [AvlStore.setParent, AvlStore.setLeft, AvlStore.setRight, AvlStore.setDepth,
    AvlStore.setUpdate, AvlStore.setData, AvlStore.setSummary]

def cut (vma : Vma) (new node size : Nat) (type : VmNodeType) (flags : Nat) : Vma :=
  let prepared := initVmDsNode vma.nodes new (word (vma.startOf node + size))
    (wordSub (vma.sizeOf node) size) .free vmAvlUpdateAddress
  { vma with
    nodes := prepared.setData node
      { prepared.data node with type := type, flags := flags, size := size } }

section Cut

variable {vma : Vma} {shape : Shapes} {chain loose front back : List Nat} {tree : KTree}
  {new node size flags : Nat} {type : VmNodeType}
  {goal : SummaryGoal VmRegion Nat}

theorem cut_region (vma : Vma) (nonzero : new ≠ 0) (different : node ≠ new) (size : Nat)
    (type : VmNodeType) (flags other : Nat) :
    (vma.cut new node size type flags).region other =
      if other = node then
        { vma.region node with type := type, flags := flags, size := size }
      else if other = new then
        { vma.region new with
          startAddr := word (vma.startOf node + size)
          size := wordSub (vma.sizeOf node) size
          type := .free }
      else vma.region other := by
  have elsewhere := initVmDsNode_elsewhere vma.nodes new (word (vma.startOf node + size))
    (wordSub (vma.sizeOf node) size) .free vmAvlUpdateAddress
  have fields := initVmDsNode_fields vma.nodes nonzero (word (vma.startOf node + size))
    (wordSub (vma.sizeOf node) size) .free vmAvlUpdateAddress
  unfold cut region AvlStore.setData
  simp only [update_apply]
  by_cases atNode : other = node
  · rw [if_pos atNode, if_pos atNode, elsewhere.data node (by simpa using different)]
  rw [if_neg atNode, if_neg atNode]
  by_cases atNew : other = new
  · rw [if_pos atNew, atNew, fields.2.2.2.2.2.2]
  · rw [if_neg atNew, elsewhere.data other (by simpa using atNew)]

theorem cut_elsewhere (vma : Vma) (new node size : Nat) (type : VmNodeType) (flags : Nat) :
    Elsewhere [new, node] vma.nodes (vma.cut new node size type flags).nodes :=
  ((initVmDsNode_elsewhere _ _ _ _ _ _).mono (by simp)).trans
    ((setData_elsewhere _ _ _).mono (by simp))

theorem cut_layout (layout : vma.Layout shape chain (new :: loose))
    (member : node ∈ (shape tree).inorder) :
    (vma.cut new node size type flags).Layout shape chain (new :: loose) := by
  have prepared : ({ vma with
      nodes := initVmDsNode vma.nodes new (word (vma.startOf node + size))
        (wordSub (vma.sizeOf node) size) .free vmAvlUpdateAddress } : Vma).Layout shape chain
      (new :: loose) := layout.setLoose (initVmDsNode_elsewhere _ _ _ _ _ _)
  exact prepared.setRegion (prepared.not_chain member) _

structure Halved (vma after : Vma) (new node size : Nat) (type : VmNodeType) (flags : Nat) :
    Prop where
  atNode : after.region node = { vma.region node with type := type, flags := flags, size := size }
  newStart : after.startOf new = vma.startOf node + size
  newSize : after.sizeOf new = vma.sizeOf node - size
  newFree : (after.region new).type = .free
  others : ∀ other, other ≠ node → other ≠ new → after.region other = vma.region other
  slabs : after.slabPages = vma.slabPages

theorem cut_halved (vma : Vma) (nonzero : new ≠ 0) (different : node ≠ new)
    (room : vma.startOf node + vma.sizeOf node ≤ 2 ^ 64) (small : vma.sizeOf node < 2 ^ 64)
    (smaller : size < vma.sizeOf node) (type : VmNodeType) (flags : Nat) :
    Halved vma (vma.cut new node size type flags) new node size type flags := by
  have regions := vma.cut_region nonzero different size type flags
  have atNew := regions new
  rw [if_neg (Ne.symm different), if_pos rfl] at atNew
  refine ⟨?_, ?_, ?_, ?_, ?_, rfl⟩
  · rw [regions node, if_pos rfl]
  · rw [startOf, atNew]
    exact word_of_lt (by omega)
  · rw [sizeOf, atNew]
    exact wordSub_of_le (by omega) (by omega)
  · rw [atNew]
  · intro other notNode notNew
    rw [regions other, if_neg notNode, if_neg notNew]

theorem Halved.regions {middle after : Vma} (halved : Halved vma middle new node size type flags)
    (same : ∀ other, after.region other = middle.region other)
    (slabs : after.slabPages = vma.slabPages) : Halved vma after new node size type flags := by
  have regions : after.region = middle.region := funext same
  refine ⟨regions ▸ halved.atNode, ?_, ?_, regions ▸ halved.newFree, regions ▸ halved.others, slabs⟩
  · rw [startOf, same]
    exact halved.newStart
  · rw [sizeOf, same]
    exact halved.newSize

theorem Halved.rest {after : Vma} (halved : Halved vma after new node size type flags)
    (nodup : (front ++ node :: back).Nodup) (absent : new ∉ front ++ node :: back) :
    ∀ other ∈ front ++ back, after.region other = vma.region other := by
  intro other inside
  apply halved.others
  · rintro rfl
    exact (nodup_cons.mp (nodup_middle.mp nodup)).1 inside
  · rintro rfl
    exact absent (((sublist_cons_self node back).append_left front).subset inside)

section Halves

variable {after : Vma} {result : BinaryTree Nat}
  (halved : Halved vma after new node size type flags)
  (order : (shape tree).inorder = front ++ node :: back)
  (newOrder : result.inorder = front ++ node :: new :: back)
  (absent : ∀ owner, new ∉ (shape owner).inorder)
  (free : (vma.region node).type = .free)

include halved absent

theorem Halved.kept {owner : KTree} {other : Nat} (member : other ∈ (shape owner).inorder)
    (notNode : other ≠ node) : after.region other = vma.region other :=
  halved.others other notNode (fun same => absent owner (same ▸ member))

include order

theorem Halved.elsewhere (layout : vma.Layout shape chain loose) {owner : KTree}
    (different : owner ≠ tree) {other : Nat} (member : other ∈ (shape owner).inorder) :
    after.region other = vma.region other := by
  refine halved.kept absent member (fun same => ?_)
  refine layout.trees_apart different ?_ member
  rw [same, order]
  simp

include newOrder free

theorem Halved.geometry (layout : vma.Layout shape chain loose) (geometry : vma.Geometry shape)
    (positive : 0 < size) (whole : size % 4096 = 0) (smaller : size < vma.sizeOf node) :
    after.Geometry (Function.update shape tree result) := by
  have nodup := layout.tree_nodup tree
  have member : node ∈ (shape tree).inorder := by
    rw [order]
    simp
  have pages := geometry.pages tree
  have rest := halved.rest (order ▸ nodup) (order ▸ absent tree)
  refine geometry.replace (fun other different item inOther =>
    halved.elsewhere order absent layout different inOther) halved.slabs ?_ ?_ ?_
  · rw [newOrder]
    have tiles := geometry.tiles tree
    rw [order] at tiles
    refine tiles.split positive smaller ?_ ?_ halved.newStart halved.newSize
      (fun other inside => congrArg VmRegion.startAddr (rest other inside))
      (fun other inside => congrArg VmRegion.size (rest other inside))
    · rw [startOf, halved.atNode]
      rfl
    · rw [sizeOf, halved.atNode]
  · intro other inResult
    rw [newOrder, mem_append, mem_cons, mem_cons] at inResult
    have nodeWhole := pages node member
    rcases inResult with inFront | isNode | isNew | inBack
    · rw [sizeOf, rest other (mem_append_left _ inFront)]
      exact pages other (by rw [order]; simp [inFront])
    · rw [isNode, sizeOf, halved.atNode]
      exact whole
    · rw [isNew, halved.newSize]
      omega
    · rw [sizeOf, rest other (mem_append_right _ inBack)]
      exact pages other (by rw [order]; simp [inBack])
  · intro other inTree _ busy
    have notNode : other ≠ node := by
      intro same
      rw [same] at busy
      exact busy free
    refine ⟨?_, halved.kept absent inTree notNode⟩
    rw [order] at inTree
    rw [newOrder]
    simp only [mem_append, mem_cons] at inTree ⊢
    tauto

theorem Halved.inUse (layout : vma.Layout shape chain loose) (busy : type ≠ .free)
    {owner : KTree} {start amount : Nat} :
    after.InUse (Function.update shape tree result) owner start amount ↔
      vma.InUse shape owner start amount ∨
        (owner = tree ∧ start = vma.startOf node ∧ amount = size) := by
  by_cases here : owner = tree
  · rw [here]
    unfold InUse startOf sizeOf
    rw [update_self]
    constructor
    · rintro ⟨other, inResult, used⟩
      rw [newOrder, mem_append, mem_cons, mem_cons] at inResult
      by_cases isNode : other = node
      · rw [isNode, halved.atNode] at used
        exact Or.inr ⟨rfl, used.1.symm, used.2.1.symm⟩
      by_cases isNew : other = new
      · rw [isNew, halved.newFree] at used
        exact absurd rfl used.2.2
      rw [halved.others other isNode isNew] at used
      refine Or.inl ⟨other, ?_, used⟩
      rw [order, mem_append, mem_cons]
      tauto
    · rintro (⟨other, inTree, used⟩ | ⟨-, startIs, sizeIs⟩)
      · have notNode : other ≠ node := by
          intro same
          rw [same] at used
          exact used.2.2 free
        rw [← halved.kept absent inTree notNode] at used
        refine ⟨other, ?_, used⟩
        rw [order, mem_append, mem_cons] at inTree
        rw [newOrder, mem_append, mem_cons, mem_cons]
        tauto
      · refine ⟨node, by rw [newOrder]; simp, ?_⟩
        rw [halved.atNode]
        exact ⟨startIs.symm, sizeIs.symm, busy⟩
  · rw [InUse.other (fun other different item inOther =>
      halved.elsewhere order absent layout different inOther) here]
    constructor
    · exact Or.inl
    · rintro (before | ⟨same, _⟩)
      · exact before
      · exact absurd same here

end Halves

theorem ordered_sides (geometry : vma.Geometry shape)
    (order : (shape tree).inorder = front ++ node :: back) (positive : 0 < size)
    (smaller : size < vma.sizeOf node) :
    (∀ other ∈ front ++ [node], ¬ vma.startOf node + size < vma.startOf other) ∧
      ∀ other ∈ back, vma.startOf node + size < vma.startOf other := by
  have covers := (Tiles.iff_covers.mp (geometry.tiles tree)).1
  rw [order] at covers
  obtain ⟨earlier, later⟩ := covers.sides
  constructor
  · intro other member
    rcases mem_append.mp member with inFront | isNode
    · have before := earlier other inFront
      omega
    · rw [mem_singleton.mp isNode]
      omega
  · intro other member
    have behind := later other member
    omega

section

variable (establishes : ∀ region left right, goal region left right (vmAvlUpdate region left right))

include establishes

theorem cut_fresh
    (nonzero : new ≠ 0) (different : node ≠ new) :
    (vma.cut new node size type flags).nodes.FreshLeaf goal new := by
  have fields := initVmDsNode_fields vma.nodes nonzero (word (vma.startOf node + size))
    (wordSub (vma.sizeOf node) size) .free vmAvlUpdateAddress
  refine ⟨nonzero, fields.1, fields.2.1, fields.2.2.2.1, ?_⟩
  have data : (vma.cut new node size type flags).nodes.data new = _ :=
    vma.cut_region nonzero different size type flags new
  have summary : (vma.cut new node size type flags).nodes.summary new = _ := fields.2.2.2.2.2.1
  rw [if_neg (Ne.symm different), if_pos rfl] at data
  rw [data, summary]
  have leaf := establishes { vma.region new with
    startAddr := word (vma.startOf node + size)
    size := wordSub (vma.sizeOf node) size
    type := .free } none none
  simpa [vmAvlUpdate] using leaf

/-- The leftover of a cut region goes right behind it. -/
theorem cut_inserted {shape : BinaryTree Nat} {key : Nat}
    (linked : vma.nodes.Linked 0 shape) (distinct : shape.inorder.Nodup)
    (settled : vma.nodes.Settled goal shape)
    (installed : ∀ other ∈ shape.inorder, vma.nodes.update other = vmAvlUpdateAddress)
    (order : shape.inorder = front ++ node :: back) (nonzero : new ≠ 0)
    (absent : new ∉ shape.inorder) (tall : shape.height ≤ treeFuel)
    (before : ∀ other ∈ front ++ [node], ¬ vmAvlCompAddr key (vma.region other) > 0)
    (behind : ∀ other ∈ back, vmAvlCompAddr key (vma.region other) > 0)
    (size : Nat) (type : VmNodeType) (flags : Nat) :
    ∃ nodes, AvlStore.avlInsert vmCallbacks (vmAvlCompAddr key) treeFuel (rootOf shape) new
        (vma.cut new node size type flags).nodes = .ok
          (rootOf (insertTree ((vma.cut new node size type flags).goesLeft key) new shape), nodes) ∧
      nodes.Linked 0 (insertTree ((vma.cut new node size type flags).goesLeft key) new shape) ∧
      nodes.Settled goal (insertTree ((vma.cut new node size type flags).goesLeft key) new shape) ∧
      (insertTree ((vma.cut new node size type flags).goesLeft key) new shape).inorder =
        front ++ node :: new :: back ∧
      AvlStore.SameOutside (new :: shape.inorder) (vma.cut new node size type flags).nodes nodes ∧
      ∀ other ∈ new :: shape.inorder,
        (vma.cut new node size type flags).nodes.update other = vmAvlUpdateAddress := by
  have member : node ∈ shape.inorder := by
    rw [order]
    simp
  have different : node ≠ new := fun same => absent (same ▸ member)
  have elsewhere := initVmDsNode_elsewhere vma.nodes new (word (vma.startOf node + size))
    (wordSub (vma.sizeOf node) size) .free vmAvlUpdateAddress
  have notNew : ∀ other ∈ shape.inorder, other ∉ [new] := apart_singleton absent
  have cutLinked : (vma.cut new node size type flags).nodes.Linked 0 shape :=
    linked.transport (fun other inTree => elsewhere.parent other (notNew other inTree))
      (fun other inTree => elsewhere.left other (notNew other inTree))
      (fun other inTree => elsewhere.right other (notNew other inTree))
  have addressed : ∀ other ∈ new :: shape.inorder,
      (vma.cut new node size type flags).nodes.update other = vmAvlUpdateAddress := by
    intro other inside
    rcases mem_cons.mp inside with isNew | inTree
    · rw [isNew]
      exact (initVmDsNode_fields vma.nodes nonzero _ _ .free vmAvlUpdateAddress).2.2.2.2.1
    · exact (elsewhere.update other (notNew other inTree)).trans (installed other inTree)
  have turns : ∀ other ∈ shape.inorder, (vma.cut new node size type flags).goesLeft key other =
      decide (vmAvlCompAddr key (vma.region other) > 0) := by
    intro other inTree
    have start : ((vma.cut new node size type flags).region other).startAddr =
        (vma.region other).startAddr := by
      rw [vma.cut_region nonzero different]
      by_cases here : other = node
      · rw [if_pos here, here]
      · rw [if_neg here, if_neg (fun isNew : other = new => absent (isNew ▸ inTree))]
    unfold goesLeft vmAvlCompAddr
    rw [start]
  have low : ∀ other ∈ front ++ [node],
      (vma.cut new node size type flags).goesLeft key other = false := by
    intro other inFront
    rw [turns other (by rw [order, append_cons]; exact mem_append_left _ inFront)]
    exact decide_eq_false (before other inFront)
  have high : ∀ other ∈ back,
      (vma.cut new node size type flags).goesLeft key other = true := by
    intro other inBack
    rw [turns other (by rw [order]; simp [inBack])]
    exact decide_eq_true (behind other inBack)
  have untouched : ∀ other ∈ shape.inorder, other ≠ node → other ∉ [new, node] := by
    intro other inTree notNode inside
    rcases mem_cons.mp inside with isNew | isNode
    · exact absent (isNew ▸ inTree)
    · exact notNode (mem_singleton.mp isNode)
  have off : (vma.cut new node size type flags).nodes.SettledOff goal
      ((vma.cut new node size type flags).goesLeft key) shape := by
    have cutElsewhere := vma.cut_elsewhere new node size type flags
    exact AvlStore.settledOff_at settled distinct order
      (fun other inFront => low other (mem_append_left _ inFront)) (low node (by simp)) high
      (fun other inTree notNode => cutElsewhere.depth other (untouched other inTree notNode))
      (fun other inTree notNode => cutElsewhere.summary other (untouched other inTree notNode))
      (fun other inTree notNode => cutElsewhere.data other (untouched other inTree notNode))
  have ready : ∀ other ∈ new :: shape.inorder,
      (vma.cut new node size type flags).nodes.Ready vmCallbacks goal other := by
    intro other inside
    right
    rw [addressed other inside]
    exact ⟨by decide, vmAvlUpdate, rfl, fun left right => establishes _ left right⟩
  have present : shape ≠ nil := by
    intro empty
    rw [empty] at member
    cases member
  obtain ⟨nodes, run, newLinked, newSettled, same⟩ := AvlStore.avlInsertRec_inserts
    (vmAvlCompAddr key) shape (vma.cut new node size type flags).nodes 0 treeFuel present tall
    cutLinked (nodup_cons.mpr ⟨absent, distinct⟩) (cut_fresh establishes nonzero different)
    ready off
  have newOrder := insertTree_inorder ((vma.cut new node size type flags).goesLeft key) new shape
    (by rw [order, append_cons]) low high
  rw [append_assoc, singleton_append] at newOrder
  refine ⟨nodes, ?_, newLinked, newSettled, newOrder, same, addressed⟩
  unfold AvlStore.avlInsert
  rw [if_neg (linked.root_ne_zero present)]
  exact run

/-- Inserting the leftover of a cut region keeps the state sound. -/
theorem split_sound
    (sound : vma.Sound goal shape chain (new :: loose))
    (order : (shape tree).inorder = front ++ node :: back)
    (free : (vma.region node).type = .free) (positive : 0 < size) (whole : size % 4096 = 0)
    (smaller : size < vma.sizeOf node)
    (ordered : vma.OrdersCorrectly (shape tree) (vma.startOf node + size))
    (type : VmNodeType) (flags : Nat) :
    ∃ nodes result, AvlStore.avlInsert vmCallbacks
          (vmAvlCompAddr (vma.startOf node + size)) treeFuel (vma.root tree) new
          (vma.cut new node size type flags).nodes = .ok (rootOf result, nodes) ∧
      (vma.setTree tree (rootOf result) nodes).Sound goal (Function.update shape tree result)
        chain loose ∧
      result.inorder = front ++ node :: new :: back ∧
      Halved vma (vma.setTree tree (rootOf result) nodes) new node size type flags := by
  have layout := sound.layout
  have geometry := sound.geometry
  have member : node ∈ (shape tree).inorder := by
    rw [order]
    simp
  have absent : ∀ owner, new ∉ (shape owner).inorder :=
    fun owner inTree => layout.not_loose inTree mem_cons_self
  have nonzero := layout.ne_zero geometry
    (mem_nodesOf.mpr (Or.inr (Or.inr mem_cons_self)) : new ∈ nodesOf shape chain (new :: loose))
  have different : node ≠ new := fun same => absent tree (same ▸ member)
  have room := geometry.bounds member
  have limit := treeLimit_lt tree
  have halved := cut_halved vma nonzero different (by omega) (by omega) smaller type flags
  have elsewhere := vma.cut_elsewhere new node size type flags
  obtain ⟨before, behind⟩ := ordered_sides geometry order positive smaller
  have short := geometry.short tree
  have tall := height_le_length (shape tree)
  obtain ⟨nodes, run, linked, settled, newOrder, same, addressed⟩ := cut_inserted establishes
    (layout.linked tree) (layout.tree_nodup tree) (sound.settled tree) (layout.callback tree) order
    nonzero (absent tree) (by omega)
    (fun other inFront => by
      have inTree : other ∈ (shape tree).inorder := by
        rw [order, append_cons]
        exact mem_append_left _ inFront
      rw [(ordered other inTree).1]
      exact before other inFront)
    (fun other inBack => (ordered other (by rw [order]; simp [inBack])).1.mpr (behind other inBack))
    size type flags
  rw [← layout.rooted tree] at run
  have perm := insertTree_perm
    ((vma.cut new node size type flags).goesLeft (vma.startOf node + size)) new (shape tree)
  have newLayout := (cut_layout layout member).setTree same linked
    (fun other inResult => addressed other (perm.mem_iff.mp inResult))
    (layout.apart_grown absent) (nodesOf_grow_perm perm)
  have state : (vma.cut new node size type flags).setTree tree (rootOf (insertTree
      ((vma.cut new node size type flags).goesLeft (vma.startOf node + size)) new (shape tree)))
      nodes = vma.setTree tree (rootOf (insertTree
      ((vma.cut new node size type flags).goesLeft (vma.startOf node + size)) new (shape tree)))
      nodes := by cases tree <;> rfl
  rw [state] at newLayout
  generalize insertTree ((vma.cut new node size type flags).goesLeft (vma.startOf node + size)) new
    (shape tree) = result at *
  have regions : ∀ other, (vma.setTree tree (rootOf result) nodes).region other =
      (vma.cut new node size type flags).region other := by
    intro other
    unfold region
    rw [setTree_nodes, same.data]
  have done := halved.regions regions (setTree_slabPages _ _ _ _)
  have touched : Elsewhere (new :: (shape tree).inorder) vma.nodes nodes :=
    (elsewhere.mono (cons_subset_cons new (cons_subset.mpr ⟨member, nil_subset _⟩))).trans same.elsewhere
  exact ⟨nodes, result, run, ⟨newLayout, done.geometry order newOrder absent free layout geometry
    positive whole smaller,
    settled_update touched (layout.apart_grown absent) sound.settled settled⟩, newOrder, done⟩

end

end Cut

end Vma

end Fesos
