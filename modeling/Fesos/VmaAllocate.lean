/-
Allocation on sound states.

A grant takes the worst fit whole or cuts it in two; in the second case a node
comes off the free list, which may first be replenished from the heap tree.
`Accounts` ties the regions in use to a list of owned ranges, and every grant
adds one range to that list.
-/

import Fesos.VmaSplit

set_option autoImplicit false

namespace Fesos

open BinaryTree Library Function
open List hiding nil after

/-- The cached maximum is exact, unless the region starts at an exempted address. -/
def SummaryExact (exempt : Nat → Prop) (region : VmRegion) (left right : Option Nat)
    (summary : Nat) : Prop :=
  exempt region.startAddr ∨ summary = vmAvlUpdate region left right

instance (exempt : Nat → Prop) [DecidablePred exempt] (region : VmRegion) (left right : Option Nat)
    (summary : Nat) : Decidable (SummaryExact exempt region left right summary) :=
  inferInstanceAs (Decidable (_ ∨ _))

theorem summaryExact_update (exempt : Nat → Prop) (region : VmRegion) (left right : Option Nat) :
    SummaryExact exempt region left right (vmAvlUpdate region left right) :=
  Or.inr rfl

namespace Vma

structure OwnedRange where
  tree : KTree
  start : Nat
  size : Nat
  deriving DecidableEq, Repr

structure Accounts (vma : Vma) (shape : Shapes) (owned : List OwnedRange) : Prop where
  once : owned.Nodup
  inUse : ∀ tree start size, vma.InUse shape tree start size ↔ ⟨tree, start, size⟩ ∈ owned

variable {newShape shape : Shapes} {after vma : Vma}

theorem Accounts.perm {owned other : List OwnedRange}
    (accounts : vma.Accounts shape owned) (perm : owned.Perm other) : vma.Accounts shape other :=
  ⟨perm.nodup_iff.mp accounts.once,
    fun tree start size => (accounts.inUse tree start size).trans perm.mem_iff⟩

structure Granted (vma after : Vma) (shape newShape : Shapes) (tree : KTree) (start size : Nat) :
    Prop where
  inUse : ∀ owner first amount, after.InUse newShape owner first amount ↔
    vma.InUse shape owner first amount ∨ (owner = tree ∧ first = start ∧ amount = size)
  wasFree : ∃ node ∈ (shape tree).inorder, vma.startOf node = start ∧
    (vma.region node).type = .free
  sameShape : ∀ owner, owner ≠ tree → newShape owner = shape owner
  sameRegions : ∀ owner, owner ≠ tree → ∀ node ∈ (shape owner).inorder,
    after.region node = vma.region node

variable {tree : KTree} {size start : Nat}

theorem Granted.from_same {middle : Vma} (granted : Granted middle after shape newShape tree start size)
    (regions : ∀ owner, ∀ node ∈ (shape owner).inorder, middle.region node = vma.region node) :
    Granted vma after shape newShape tree start size := by
  refine ⟨fun owner first amount => ?_, ?_, granted.sameShape, ?_⟩
  · rw [granted.inUse, InUse.transport (regions owner)]
  · obtain ⟨node, member, startIs, free⟩ := granted.wasFree
    have same := regions tree node member
    refine ⟨node, member, ?_, ?_⟩
    · rw [← startIs, startOf, startOf, same]
    · rw [← same]
      exact free
  · intro owner different node member
    rw [granted.sameRegions owner different node member, regions owner node member]

theorem Granted.to_same {middle : Vma} (granted : Granted vma middle shape newShape tree start size)
    (regions : ∀ owner, ∀ node ∈ (newShape owner).inorder, after.region node = middle.region node) :
    Granted vma after shape newShape tree start size := by
  refine ⟨fun owner first amount => ?_, granted.wasFree, granted.sameShape, ?_⟩
  · rw [InUse.transport (regions owner), granted.inUse]
  · intro owner different node member
    rw [← granted.sameRegions owner different node member]
    exact regions owner node (by rw [granted.sameShape owner different]; exact member)

theorem Granted.accounts {owned : List OwnedRange}
    (granted : Granted vma after shape newShape tree start size) (geometry : vma.Geometry shape)
    (accounts : vma.Accounts shape owned) :
    after.Accounts newShape (⟨tree, start, size⟩ :: owned) := by
  refine ⟨nodup_cons.mpr ⟨?_, accounts.once⟩, ?_⟩
  · intro member
    obtain ⟨used, inTree, startIs, _, busy⟩ := (accounts.inUse tree start size).mpr member
    obtain ⟨node, nodeIn, nodeStart, free⟩ := granted.wasFree
    rw [geometry.eq_of_start inTree nodeIn (startIs.trans nodeStart.symm)] at busy
    exact busy free
  · intro owner first amount
    rw [granted.inUse, accounts.inUse, mem_cons, OwnedRange.mk.injEq]
    tauto

section Steps

variable {vma after : Vma} {shape : Shapes} {chain loose : List Nat} {tree : KTree}
  {node size flags : Nat} {type : VmNodeType} {exempt : Nat → Prop}
  {goal : SummaryGoal VmRegion Nat}

theorem Sound.sameNodes (sound : vma.Sound goal shape chain loose) (nodes : after.nodes = vma.nodes)
    (roots : ∀ tree, after.root tree = vma.root tree := by intro tree; cases tree <;> rfl)
    (list : after.freeList = vma.freeList := by rfl)
    (count : after.freeNodeCount = vma.freeNodeCount := by rfl)
    (slabs : after.slabPages = vma.slabPages := by rfl) : after.Sound goal shape chain loose := by
  have same : Elsewhere [] vma.nodes after.nodes := by
    rw [nodes]
    exact (AvlStore.SameOutside.refl _ _).elsewhere
  refine ⟨sound.layout.transport same nofun roots list count slabs,
    sound.geometry.transport (fun _ _ _ => ?_) slabs, fun tree => ?_⟩
  · rw [region, region, nodes]
  · rw [nodes]
    exact sound.settled tree

theorem Sound.rechain {touched newChain newLoose : List Nat}
    (sound : vma.Sound goal shape chain loose) (same : Elsewhere touched vma.nodes after.nodes)
    (apart : ∀ owner, ∀ other ∈ (shape owner).inorder, other ∉ touched)
    (layout : after.Layout shape newChain newLoose) (slabs : after.slabPages = vma.slabPages) :
    after.Sound goal shape newChain newLoose ∧
      ∀ owner, ∀ other ∈ (shape owner).inorder, after.region other = vma.region other := by
  have regions : ∀ owner, ∀ other ∈ (shape owner).inorder, after.region other = vma.region other :=
    fun owner other member => same.data other (apart owner other member)
  exact ⟨⟨layout, sound.geometry.transport regions slabs,
    fun owner => same.settled (apart owner) (sound.settled owner)⟩, regions⟩

/-- Taking a node off the free list leaves the regions alone. -/
theorem takeNode_sound (sound : vma.Sound goal shape (node :: chain) loose) :
    takeNode vma = .ok (node, vma.taken node) ∧
      (vma.taken node).Sound goal shape chain (node :: loose) ∧
      ∀ owner, ∀ other ∈ (shape owner).inorder, (vma.taken node).region other = vma.region other := by
  have few := sound.layout.chain_few sound.geometry
  obtain ⟨run, layout⟩ := takeNode_layout sound.layout (by omega)
  exact ⟨run, sound.rechain (clearNode_elsewhere _ _)
    (fun owner => apart_singleton (fun member => sound.layout.not_chain member mem_cons_self))
    layout rfl⟩

/-- The request consumes its region exactly. -/
theorem whole_granted (sound : vma.Sound goal shape chain loose)
    (member : node ∈ (shape tree).inorder) (free : (vma.region node).type = .free)
    (busy : type ≠ .free) (exactly : size = vma.sizeOf node)
    (met : ∀ frames left right, shape tree = plug frames (BinaryTree.node node left right) →
      goal { vma.region node with type := type, flags := flags } (vma.nodes.top left)
        (vma.nodes.top right) (vma.nodes.summary node)) :
    (vma.setRegion node { vma.region node with type := type, flags := flags }).Sound goal shape
        chain loose ∧
      Granted vma (vma.setRegion node { vma.region node with type := type, flags := flags }) shape
        shape tree (vma.startOf node) size := by
  have regions := vma.setRegion_region node
  refine ⟨sound.relabel member _ rfl rfl (fun _ _ => busy) met, ?_, ⟨node, member, rfl, free⟩,
    fun _ _ => rfl, ?_⟩
  · intro owner first amount
    unfold InUse startOf sizeOf
    constructor
    · rintro ⟨other, inOwner, used⟩
      rw [regions] at used
      by_cases here : other = node
      · rw [if_pos here] at used
        refine Or.inr ⟨?_, used.1.symm, used.2.1.symm.trans exactly.symm⟩
        by_contra different
        exact sound.layout.trees_apart different member (here ▸ inOwner)
      · rw [if_neg here] at used
        exact Or.inl ⟨other, inOwner, used⟩
    · rintro (⟨other, inOwner, used⟩ | ⟨ownerIs, startIs, sizeIs⟩)
      · have notNode : other ≠ node := by
          intro same
          rw [same] at used
          exact used.2.2 free
        refine ⟨other, inOwner, ?_⟩
        rw [regions, if_neg notNode]
        exact used
      · refine ⟨node, ownerIs ▸ member, ?_⟩
        rw [regions, if_pos rfl]
        exact ⟨startIs.symm, exactly.symm.trans sizeIs.symm, busy⟩
  · intro owner different other inOwner
    rw [regions, if_neg (sound.layout.ne_of_other different member inOwner)]

/-- `back` records a backing and may change the page tables. -/
theorem back_ok {backing : Option VmaBacking} (run : back size type flags backing node vma = .ok after) :
    ∃ recorded vmm, after = { vma.setRegion node
      { vma.region node with backing := recorded } with vmm := vmm } := by
  have same : vma.setRegion node { vma.region node with backing := (vma.region node).backing } =
      vma := by
    unfold setRegion region AvlStore.setData
    simp only [update_eq_self]
  unfold back at run
  split at run
  · cases run
    exact ⟨_, vma.vmm, by rw [same]⟩
  · cases run
    exact ⟨_, vma.vmm, by rw [same]⟩
  · cases run
  · cases run
    exact ⟨_, _, rfl⟩
  · cases run
    exact ⟨_, vma.vmm, rfl⟩
  · cases run
    exact ⟨_, vma.vmm, rfl⟩

/-- Recording a backing changes neither the tree nor the ranges in use. -/
theorem back_sound {backing : Option VmaBacking}
    (sound : vma.Sound (SummaryExact exempt) shape chain loose)
    (member : node ∈ (shape tree).inorder)
    (run : back size type flags backing node vma = .ok after) :
    after.Sound (SummaryExact exempt) shape chain loose ∧
      (∀ other, after.startOf other = vma.startOf other) ∧
      (∀ other, other ≠ node → after.region other = vma.region other) ∧
      (∀ owner first amount,
        after.InUse shape owner first amount ↔ vma.InUse shape owner first amount) ∧
      after.slabPages = vma.slabPages ∧ after.inReplenishCycle = vma.inReplenishCycle := by
  obtain ⟨recorded, vmm, state⟩ := back_ok run
  rw [state]
  have regions : ∀ other, ({ vma.setRegion node
      { vma.region node with backing := recorded } with vmm := vmm } : Vma).region other =
      if other = node then { vma.region node with backing := recorded } else vma.region other :=
    fun other => vma.setRegion_region node other _
  have relabelled := sound.relabel member { vma.region node with backing := recorded }
    rfl rfl (fun busy _ => busy) (fun frames left right is => by
      have settled := sound.settled tree
      rw [is] at settled
      exact (settled.of_plug frames).1.2.1)
  refine ⟨relabelled.sameNodes rfl, ?_, ?_, ?_,
    rfl, rfl⟩
  · exact fun other =>
      (setRegion_span { vma.region node with backing := recorded } rfl rfl other).1
  · intro other notNode
    rw [regions, if_neg notNode]
  · intro owner first amount
    unfold InUse startOf sizeOf
    simp only [regions]
    refine exists_congr (fun other => and_congr_right (fun _ => ?_))
    split
    · rename_i here
      rw [here]
    · exact Iff.rfl

end Steps

/-! ### Free regions -/

def freeSize (vma : Vma) (node : Nat) : Nat :=
  if (vma.region node).type = .free then vma.sizeOf node else 0

def largestFree (vma : Vma) (subtree : BinaryTree Nat) : Nat :=
  (subtree.inorder.map vma.freeSize).foldr max 0

theorem foldr_max_append (left right : List Nat) :
    (left ++ right).foldr max 0 = max (left.foldr max 0) (right.foldr max 0) := by
  induction left with
  | nil => simp
  | cons size left ih =>
    rw [cons_append, foldr_cons, foldr_cons, ih, max_assoc]

theorem largestFree_node (vma : Vma) (pointer : Nat) (left right : BinaryTree Nat) :
    vma.largestFree (node pointer left right) =
      max (max (vma.largestFree left) (vma.largestFree right)) (vma.freeSize pointer) := by
  unfold largestFree
  rw [inorder_node, map_append, map_cons, foldr_max_append, foldr_cons]
  omega

/-! ### Serving a request from one tree -/

section Serve

variable {vma after : Vma} {shape : Shapes} {chain loose : List Nat} {tree : KTree}
  {node size flags start : Nat} {type : VmNodeType} {backing : Option VmaBacking}
  {exempt : Nat → Prop} {goal : SummaryGoal VmRegion Nat}
  {allocNode : Vma → Except Fault (Nat × Vma)}

def candidate (vma : Vma) (shape : BinaryTree Nat) : Option Nat :=
  shape.search (vmAvlCompMaxFreeSlot vma.nodes)

theorem candidate_free {shape : BinaryTree Nat} (found : vma.candidate shape = some node) :
    node ∈ shape.inorder ∧ (vma.region node).type = .free ∧
      vma.sizeOf node = vma.nodes.summary node := by
  obtain ⟨member, hit⟩ := search_some found
  unfold vmAvlCompMaxFreeSlot at hit
  split_ifs at hit with here
  · exact ⟨member, here.2, here.1⟩
  · cases hit

theorem worstFit_candidate (sound : vma.Sound goal shape chain loose) (tree : KTree) :
    vma.worstFit tree = .ok ((vma.candidate (shape tree)).getD 0) := by
  have tall := height_le_length (shape tree)
  have short := sound.geometry.short tree
  unfold worstFit
  rw [sound.layout.rooted]
  exact AvlStore.avlGetNode_search _ (sound.layout.linked tree) (by omega)

theorem serve_none (sound : vma.Sound goal shape chain loose)
    (none : vma.candidate (shape tree) = none) (busy : type ≠ .free)
    (run : vmaAllocateMemoryFromTreeWith allocNode tree size type flags backing vma =
      .ok (start, after)) : start = 0 ∧ after = vma := by
  unfold vmaAllocateMemoryFromTreeWith at run
  rw [if_neg busy, worstFit_candidate sound, none, ok_bind, Option.getD_none, if_pos rfl] at run
  cases run
  exact ⟨rfl, rfl⟩

/-- A request with a candidate is carved out and backed. -/
theorem serve_some (sound : vma.Sound goal shape chain loose)
    (found : vma.candidate (shape tree) = some node) (busy : type ≠ .free)
    (run : vmaAllocateMemoryFromTreeWith allocNode tree size type flags backing vma =
      .ok (start, after)) :
    ∃ carved, carve allocNode tree size type flags node vma = .ok carved ∧
      back size type flags backing node carved = .ok after ∧ start = after.startOf node := by
  have member := (candidate_free found).1
  have nonzero := sound.layout.ne_zero sound.geometry
    (mem_nodesOf.mpr (Or.inl ⟨tree, member⟩) : node ∈ nodesOf shape chain loose)
  unfold vmaAllocateMemoryFromTreeWith at run
  rw [if_neg busy, worstFit_candidate sound, found, ok_bind, Option.getD_some, if_neg nonzero] at run
  obtain ⟨middle, carved, run⟩ := bind_eq_ok run
  obtain ⟨final, backed, run⟩ := bind_eq_ok run
  cases run
  exact ⟨middle, carved, backed, rfl⟩

theorem serve_whole (sound : vma.Sound (SummaryExact exempt) shape chain loose)
    (found : vma.candidate (shape tree) = some node) (busy : type ≠ .free)
    (exactly : size = vma.sizeOf node)
    (met : ∀ parts ∈ focus node (shape tree),
      SummaryExact exempt { vma.region node with type := type, flags := flags }
        (vma.nodes.top parts.2.1) (vma.nodes.top parts.2.2) (vma.nodes.summary node))
    (run : vmaAllocateMemoryFromTreeWith allocNode tree size type flags backing vma =
      .ok (start, after)) :
    start = vma.startOf node ∧ after.Sound (SummaryExact exempt) shape chain loose ∧
      Granted vma after shape shape tree start size ∧
      after.slabPages = vma.slabPages ∧ after.inReplenishCycle = vma.inReplenishCycle := by
  obtain ⟨member, free, _⟩ := candidate_free found
  obtain ⟨carved, carving, backed, startIs⟩ := serve_some sound found busy run
  obtain ⟨relabelled, granted⟩ := whole_granted sound member free busy exactly
    (fun frames left right is =>
      met (frames, left, right) (focus_of_plug (sound.layout.tree_nodup tree) is))
  rw [carve, if_pos (show size = (vma.region node).size from exactly)] at carving
  cases carving
  obtain ⟨final, starts, others, inUse, slabs, flag⟩ := back_sound relabelled member backed
  have startSame : start = vma.startOf node := by
    rw [startIs, starts, startOf, setRegion_region, if_pos rfl]
    rfl
  refine ⟨startSame, final, ⟨fun owner first amount => ?_, ?_, fun _ _ => rfl, ?_⟩, slabs, flag⟩
  · rw [inUse, granted.inUse, startSame]
  · rw [startSame]
    exact granted.wasFree
  · intro owner different other inOwner
    rw [others other (sound.layout.ne_of_other different member inOwner),
      granted.sameRegions owner different other inOwner]

variable {new : Nat}

theorem carve_cut {middle : Vma} {root : Nat} {nodes : AvlStore VmRegion Nat}
    (different : ¬ size = (vma.region node).size) (supply : allocNode vma = .ok (new, middle))
    (inserted : AvlStore.avlInsert vmCallbacks (vmAvlCompAddr (word (middle.startOf node + size)))
      treeFuel (middle.root tree) new (middle.cut new node size type flags).nodes =
        .ok (root, nodes)) :
    carve allocNode tree size type flags node vma = .ok (middle.setTree tree root nodes) := by
  rw [carve, if_neg different, supply, ok_bind]
  change (AvlStore.avlInsert vmCallbacks (vmAvlCompAddr (word (middle.startOf node + size)))
    treeFuel (middle.root tree) new (middle.cut new node size type flags).nodes >>= fun inserted =>
      pure (middle.setTree tree inserted.1 inserted.2)) = _
  rw [inserted, ok_bind]
  rfl

theorem serve_split {middle : Vma} {middleShape : Shapes} {middleChain : List Nat}
    (sound : vma.Sound (SummaryExact exempt) shape chain loose)
    (found : vma.candidate (shape tree) = some node) (busy : type ≠ .free) (positive : 0 < size)
    (whole : size % 4096 = 0) (smaller : size < vma.sizeOf node)
    (ordered : vma.OrdersCorrectly (shape tree) (vma.startOf node + size))
    (supply : allocNode vma = .ok (new, middle))
    (middleSound : middle.Sound (SummaryExact exempt) middleShape middleChain (new :: loose))
    (sameShape : middleShape tree = shape tree)
    (sameRegions : ∀ other ∈ (shape tree).inorder, middle.region other = vma.region other)
    (run : vmaAllocateMemoryFromTreeWith allocNode tree size type flags backing vma =
      .ok (start, after)) :
    start = vma.startOf node ∧ ∃ result,
      after.Sound (SummaryExact exempt) (Function.update middleShape tree result) middleChain loose ∧
      Granted middle after middleShape (Function.update middleShape tree result) tree start size ∧
      after.slabPages = middle.slabPages ∧ after.inReplenishCycle = middle.inReplenishCycle := by
  obtain ⟨member, free, _⟩ := candidate_free found
  obtain ⟨carved, carving, backed, startIs⟩ := serve_some sound found busy run
  have nodeSame := sameRegions node member
  have startSame : middle.startOf node = vma.startOf node := congrArg VmRegion.startAddr nodeSame
  have sizeSame : middle.sizeOf node = vma.sizeOf node := congrArg VmRegion.size nodeSame
  obtain ⟨front, back, order⟩ := append_of_mem member
  have middleFree : (middle.region node).type = .free := by
    rw [nodeSame]
    exact free
  have middleOrdered : middle.OrdersCorrectly (middleShape tree) (middle.startOf node + size) := by
    rw [sameShape, startSame]
    intro other inTree
    have otherStart : middle.startOf other = vma.startOf other :=
      congrArg VmRegion.startAddr (sameRegions other inTree)
    rw [otherStart, sameRegions other inTree]
    exact ordered other inTree
  obtain ⟨nodes, result, inserted, final, newOrder, halved⟩ := split_sound
    (summaryExact_update exempt) middleSound (sameShape ▸ order) middleFree positive whole
    (sizeSame ▸ smaller) middleOrdered type flags
  have room := sound.geometry.bounds member
  have limit := treeLimit_lt tree
  have keyIs : word (middle.startOf node + size) = middle.startOf node + size :=
    word_of_lt (by omega)
  have different : ¬ size = (vma.region node).size := by
    have fits : size < (vma.region node).size := smaller
    omega
  rw [← keyIs] at inserted
  have carvedIs := carve_cut different supply inserted
  rw [carvedIs] at carving
  cases carving
  have absent : ∀ owner, new ∉ (middleShape owner).inorder :=
    fun owner inTree => middleSound.layout.not_loose inTree mem_cons_self
  have nodeIn : node ∈ (Function.update middleShape tree result tree).inorder := by
    rw [update_self, newOrder]
    simp
  obtain ⟨backedSound, starts, others, inUse, slabs, flag⟩ := back_sound final nodeIn backed
  have startEq : start = vma.startOf node := by
    rw [startIs, starts, startOf, halved.atNode]
    exact startSame
  refine ⟨startEq, result, backedSound, ⟨fun owner first amount => ?_, ?_,
    fun owner different => update_of_ne different _ _, ?_⟩, ?_, ?_⟩
  · rw [inUse, halved.inUse (sameShape ▸ order) newOrder absent middleFree middleSound.layout busy,
      startEq, startSame]
  · exact ⟨node, by rw [sameShape]; exact member, by rw [startEq, startSame], middleFree⟩
  · intro owner different other inOwner
    rw [others other (middleSound.layout.ne_of_other different (sameShape ▸ member) inOwner),
      halved.elsewhere (sameShape ▸ order) absent middleSound.layout different inOwner]
  · rw [slabs, setTree_slabPages]
  · rw [flag, setTree_inReplenishCycle]

structure Servable (exempt : Nat → Prop) (vma : Vma) (shape : BinaryTree Nat) (node size : Nat)
    (type : VmNodeType) (flags : Nat) : Prop where
  fits : size ≤ vma.sizeOf node
  exactly : size = vma.sizeOf node → ∀ parts ∈ focus node shape,
    SummaryExact exempt { vma.region node with type := type, flags := flags }
      (vma.nodes.top parts.2.1) (vma.nodes.top parts.2.2) (vma.nodes.summary node)
  ordered : size ≠ vma.sizeOf node → vma.OrdersCorrectly shape (vma.startOf node + size)

section Unchanged

variable {touched : List Nat} (same : Elsewhere touched vma.nodes after.nodes)
  (apart : ∀ other ∈ (shape tree).inorder, other ∉ touched)

include same apart

theorem candidate_unchanged (linked : vma.nodes.Linked 0 (shape tree)) :
    after.candidate (shape tree) = vma.candidate (shape tree) := by
  refine search_congr (fun other member => ?_)
  have outside := apart other member
  unfold vmAvlCompMaxFreeSlot
  rw [same.data other outside, same.summary other outside, same.left other outside]
  rcases linked.left_mem member with empty | inTree
  · rw [empty]
    simp
  · rw [same.summary _ (apart _ inTree)]

theorem Servable.unchanged (servable : Servable exempt vma (shape tree) node size type flags)
    (member : node ∈ (shape tree).inorder) :
    Servable exempt after (shape tree) node size type flags := by
  have regions : ∀ other ∈ (shape tree).inorder, after.region other = vma.region other :=
    fun other inTree => same.data other (apart other inTree)
  have startSame : after.startOf node = vma.startOf node :=
    congrArg VmRegion.startAddr (regions node member)
  have sizeSame : after.sizeOf node = vma.sizeOf node :=
    congrArg VmRegion.size (regions node member)
  refine ⟨sizeSame ▸ servable.fits, ?_, ?_⟩
  · rintro exactly ⟨frames, left, right⟩ found
    have met := servable.exactly (sizeSame ▸ exactly) _ found
    have inTree : ∀ other ∈ (BinaryTree.node node left right).inorder, other ∉ touched := by
      intro other inside
      refine apart other ?_
      rw [focus_plug found, (plug_perm frames _).mem_iff]
      exact mem_append_left _ inside
    rw [regions node member, same.summary node (apart node member),
      AvlStore.top_transport (fun other inLeft => same.summary other (inTree other (by simp [inLeft]))),
      AvlStore.top_transport (fun other inRight => same.summary other (inTree other (by simp [inRight])))]
    exact met
  · intro different other inTree
    have ordered := servable.ordered (sizeSame ▸ different) other inTree
    have otherStart : after.startOf other = vma.startOf other :=
      congrArg VmRegion.startAddr (regions other inTree)
    rw [otherStart, startSame, regions other inTree]
    exact ordered

end Unchanged

instance [DecidablePred exempt] (shape : BinaryTree Nat) (node size : Nat) (type : VmNodeType)
    (flags : Nat) : Decidable (Servable exempt vma shape node size type flags) :=
  decidable_of_iff
    (size ≤ vma.sizeOf node ∧
      (size = vma.sizeOf node → ∀ parts ∈ focus node shape,
        SummaryExact exempt { vma.region node with type := type, flags := flags }
          (vma.nodes.top parts.2.1) (vma.nodes.top parts.2.2) (vma.nodes.summary node)) ∧
      (size ≠ vma.sizeOf node → vma.OrdersCorrectly shape (vma.startOf node + size)))
    ⟨fun facts => ⟨facts.1, facts.2.1, facts.2.2⟩,
      fun servable => ⟨servable.fits, servable.exactly, servable.ordered⟩⟩

/-- Serving with a node taken straight off the free list. -/
theorem serve_taken (sound : vma.Sound (SummaryExact exempt) shape (new :: chain) loose)
    (found : vma.candidate (shape tree) = some node) (busy : type ≠ .free) (positive : 0 < size)
    (whole : size % 4096 = 0) (servable : Servable exempt vma (shape tree) node size type flags)
    (supply : allocNode vma = .ok (new, vma.taken new))
    (run : vmaAllocateMemoryFromTreeWith allocNode tree size type flags backing vma =
      .ok (start, after)) :
    start = vma.startOf node ∧ ∃ newShape newChain,
      after.Sound (SummaryExact exempt) newShape newChain loose ∧
      Granted vma after shape newShape tree start size ∧ chain.length ≤ newChain.length ∧
      after.slabPages = vma.slabPages ∧ after.inReplenishCycle = vma.inReplenishCycle := by
  by_cases exactly : size = vma.sizeOf node
  · obtain ⟨startIs, final, granted, slabs, flag⟩ :=
      serve_whole sound found busy exactly (servable.exactly exactly) run
    exact ⟨startIs, shape, new :: chain, final, granted, by simp, slabs, flag⟩
  have fits := servable.fits
  obtain ⟨_, taken, regions⟩ := takeNode_sound sound
  obtain ⟨startIs, result, final, granted, slabs, flag⟩ := serve_split sound found busy positive
    whole (by omega) (servable.ordered exactly) supply taken rfl (regions tree) run
  exact ⟨startIs, _, chain, final, granted.from_same regions, Nat.le_refl _, slabs, flag⟩

end Serve

/-! ### Replenishing the slab -/

section Replenish

variable {vma after : Vma} {shape : Shapes} {chain loose : List Nat} {exempt : Nat → Prop}

theorem vmaDemandPaging_ok {vAddr result : Nat} (run : vmaDemandPaging vAddr vma = .ok (result, after)) :
    ∃ vmm, after = { vma with vmm := vmm } := by
  unfold vmaDemandPaging at run
  obtain ⟨node, found, run⟩ := bind_eq_ok run
  split at run
  · cases run
    exact ⟨vma.vmm, rfl⟩
  split at run
  · cases run
    exact ⟨vma.vmm, rfl⟩
  · cases run
    exact ⟨_, rfl⟩

theorem touch_ok {vAddr : Nat} (run : touch vAddr vma = .ok after) :
    ∃ vmm, after = { vma with vmm := vmm } := by
  unfold touch at run
  split at run
  · cases run
    exact ⟨vma.vmm, rfl⟩
  obtain ⟨result, paged, run⟩ := bind_eq_ok run
  split at run
  · cases run
    exact vmaDemandPaging_ok paged
  · cases run

variable {page : Nat}

theorem page_fresh {node : Nat} (geometry : vma.Geometry shape)
    (used : vma.InUse shape .heap page 4096) (notSlab : page ∉ vma.slabPages)
    (located : vma.InSlab node) : node ∉ pageNodes page nodesPerPage := by
  intro inside
  obtain ⟨index, small, is⟩ := mem_pageNodes.mp inside
  obtain ⟨region, inHeap, startIs, sizeIs, _⟩ := used
  obtain ⟨slab, inSlabs, slot, slotSmall, slotIs⟩ := located
  obtain ⟨slabRegion, slabIn, slabStart, slabSize, _⟩ := geometry.slabs slab inSlabs
  have perPage : nodesPerPage = 46 := rfl
  have same := (geometry.tiles .heap).eq_of_overlap inHeap slabIn node (by omega) (by omega)
  rw [same, slabStart] at startIs
  exact notSlab (startIs ▸ inSlabs)

theorem Granted.not_slab {newShape : Shapes} {size : Nat}
    (granted : Granted vma after shape newShape .heap page size) (geometry : vma.Geometry shape) :
    page ∉ vma.slabPages := by
  intro inSlabs
  obtain ⟨slab, slabIn, slabStart, _, busy⟩ := geometry.slabs page inSlabs
  obtain ⟨node, inHeap, startIs, free⟩ := granted.wasFree
  rw [geometry.eq_of_start slabIn inHeap (slabStart.trans startIs.symm)] at busy
  exact busy free

/-- The nodes of a page in use become free nodes. -/
theorem threaded_sound {last : Nat} {goal : SummaryGoal VmRegion Nat}
    (sound : vma.Sound goal shape chain loose) (used : vma.InUse shape .heap page 4096)
    (notSlab : page ∉ vma.slabPages) (per : nodesPerPage = last + 1) :
    (vma.threaded page last).Sound goal shape (pageNodes page (last + 1) ++ chain) loose ∧
      ∀ owner, ∀ other ∈ (shape owner).inorder,
        (vma.threaded page last).region other = vma.region other := by
  have fresh : ∀ node ∈ pageNodes page (last + 1), node ∉ nodesOf shape chain loose := by
    intro node inside member
    refine page_fresh sound.geometry used notSlab (sound.layout.located node member) ?_
    rw [per]
    exact inside
  have nonzero : page ≠ 0 := by
    obtain ⟨region, inHeap, startIs, _⟩ := used
    have low := (sound.geometry.bounds inHeap).1
    have positive := treeStart_pos .heap
    omega
  have few := sound.layout.chain_few sound.geometry
  have perPage : nodesPerPage = 46 := rfl
  have same := vma.threaded_elsewhere page last
  have apart : ∀ owner, ∀ other ∈ (shape owner).inorder, other ∉ pageNodes page (last + 1) :=
    fun owner other member inside => fresh other inside (mem_nodesOf.mpr (Or.inl ⟨owner, member⟩))
  have regions : ∀ owner, ∀ other ∈ (shape owner).inorder,
      (vma.threaded page last).region other = vma.region other :=
    fun owner other member => same.data other (apart owner other member)
  refine ⟨⟨threaded_layout sound.layout nonzero fresh (by omega) per, ?_,
    fun owner => same.settled (apart owner) (sound.settled owner)⟩, regions⟩
  have kept : ({ vma.threaded page last with slabPages := vma.slabPages } : Vma).Geometry shape :=
    sound.geometry.transport regions rfl
  refine ⟨kept.tiles, kept.pages, ?_⟩
  intro slab member
  rcases mem_cons.mp member with isNew | old
  · rw [isNew, InUse.transport (regions .heap)]
    exact used
  · exact kept.slabs slab old

theorem replenish_eq (vma : Vma) : replenishSlabFromTree vma = (do
    let page ← vmaAllocateMemoryFromTreeWith takeNode .heap 4096 .regular slabFlags none vma
    if page.1 = 0 then .error .nullDereference
    else do
      let touched ← touch (page.1 + 40) page.2
      pure (touched.threaded page.1 (nodesPerPage - 1))) := rfl

theorem replenish_sound {new : Nat}
    (sound : vma.Sound (SummaryExact exempt) shape (new :: chain) loose)
    (servable : ∀ node, vma.candidate (shape .heap) = some node →
      Servable exempt vma (shape .heap) node 4096 .regular slabFlags)
    (run : replenishSlabFromTree vma = .ok after) :
    ∃ page newShape newChain, after.Sound (SummaryExact exempt) newShape newChain loose ∧
      Granted vma after shape newShape .heap page 4096 ∧
      after.slabPages = page :: vma.slabPages ∧ nodesPerPage ≤ newChain.length ∧
      after.inReplenishCycle = vma.inReplenishCycle := by
  rw [replenish_eq] at run
  obtain ⟨⟨page, granting⟩, served, run⟩ := bind_eq_ok run
  cases found : vma.candidate (shape .heap) with
  | none =>
    have empty := (serve_none sound found (by decide) served).1
    rw [if_pos empty] at run
    cases run
  | some node =>
    obtain ⟨_, newShape, newChain, grantedSound, granted, _, slabs, flag⟩ :=
      serve_taken sound found (by decide) (by decide) (by decide) (servable node found)
        (takeNode_sound sound).1 served
    split at run
    · cases run
    obtain ⟨touched, touching, run⟩ := bind_eq_ok run
    cases run
    obtain ⟨vmm, touchedIs⟩ := touch_ok touching
    have used : touched.InUse newShape .heap page 4096 := by
      rw [touchedIs]
      exact (granted.inUse .heap page 4096).mpr (Or.inr ⟨rfl, rfl, rfl⟩)
    have touchedSound : touched.Sound (SummaryExact exempt) newShape newChain loose := by
      rw [touchedIs]
      exact grantedSound.sameNodes rfl
    have touchedSlabs : touched.slabPages = vma.slabPages := by
      rw [touchedIs]
      exact slabs
    have notSlab : page ∉ touched.slabPages := by
      rw [touchedSlabs]
      exact granted.not_slab sound.geometry
    obtain ⟨final, regions⟩ := threaded_sound touchedSound used notSlab
      (show nodesPerPage = nodesPerPage - 1 + 1 from rfl)
    refine ⟨page, newShape, _, final, granted.to_same (fun owner other member => ?_), ?_,
      ?_, ?_⟩
    · rw [regions owner other member, touchedIs]
      rfl
    · rw [threaded_slabPages, touchedSlabs]
    · rw [length_append, pageNodes, length_map, length_range]
      exact Nat.le_add_right _ _
    · rw [threaded_inReplenishCycle, touchedIs]
      exact flag

end Replenish

/-! ### States between calls -/

def slabRanges (vma : Vma) : List OwnedRange :=
  vma.slabPages.map (fun page => ⟨.heap, page, 4096⟩)

/-- The state between two calls, with the ranges handed out and not yet freed. -/
structure Steady (exempt : Nat → Prop) (vma : Vma) (shape : Shapes) (chain : List Nat)
    (live : List OwnedRange) : Prop where
  sound : vma.Sound (SummaryExact exempt) shape chain []
  accounts : vma.Accounts shape (live ++ vma.slabRanges)
  stocked : minimumAvailableNodes ≤ chain.length
  calm : vma.inReplenishCycle = false

/-- The node a split needs is at hand, or comes from another tree. -/
def Stocked (exempt : Nat → Prop) (vma : Vma) (shape : Shapes) (tree : KTree) : Prop :=
  minimumAvailableNodes < vma.freeNodeCount ∨
    (tree = .mmio ∧ ∀ node ∈ vma.candidate (shape .heap),
      Servable exempt vma (shape .heap) node 4096 .regular slabFlags)

instance (exempt : Nat → Prop) [DecidablePred exempt] (vma : Vma) (shape : Shapes) (tree : KTree) :
    Decidable (vma.Stocked exempt shape tree) :=
  inferInstanceAs (Decidable (_ ∨ (_ ∧ ∀ node ∈ vma.candidate (shape .heap), _)))

def SafeAllocate (exempt : Nat → Prop) (vma : Vma) (shape : Shapes) (tree : KTree) (size : Nat)
    (type : VmNodeType) (flags : Nat) : Prop :=
  ∀ node ∈ vma.candidate (shape tree),
    Servable exempt vma (shape tree) node size type flags ∧
      (size ≠ vma.sizeOf node → vma.Stocked exempt shape tree)

instance (exempt : Nat → Prop) [DecidablePred exempt] (vma : Vma) (shape : Shapes) (tree : KTree)
    (size : Nat) (type : VmNodeType) (flags : Nat) :
    Decidable (vma.SafeAllocate exempt shape tree size type flags) :=
  inferInstanceAs (Decidable (∀ node ∈ vma.candidate (shape tree), _ ∧ (_ → _)))

section Allocate

variable {vma after : Vma} {shape : Shapes} {chain : List Nat} {tree : KTree}
  {live : List OwnedRange} {size flags start : Nat} {type : VmNodeType}
  {backing : Option VmaBacking} {exempt : Nat → Prop}

theorem allocVmDsNode_cases {new got : Nat} {middle : Vma} {loose : List Nat}
    (sound : vma.Sound (SummaryExact exempt) shape (new :: chain) loose)
    (run : allocVmDsNode vma = .ok (got, middle)) :
    got = new ∧
      ((middle = vma.taken new ∧
          (minimumAvailableNodes ≤ chain.length ∨ vma.inReplenishCycle = true)) ∨
        (chain.length < minimumAvailableNodes ∧ ∃ replenished,
          replenishSlabFromTree { vma.taken new with inReplenishCycle := true } = .ok replenished ∧
          middle = { replenished with inReplenishCycle := false })) := by
  obtain ⟨taking, taken, _⟩ := takeNode_sound sound
  have counted := taken.layout.counted
  unfold allocVmDsNode at run
  rw [taking, ok_bind] at run
  split at run
  · rename_i low
    rw [counted] at low
    obtain ⟨replenished, replenishing, run⟩ := bind_eq_ok run
    cases run
    exact ⟨rfl, Or.inr ⟨low.1, replenished, replenishing, rfl⟩⟩
  · rename_i high
    rw [counted] at high
    cases run
    refine ⟨rfl, Or.inl ⟨rfl, ?_⟩⟩
    by_cases few : chain.length < minimumAvailableNodes
    · refine Or.inr ?_
      cases flag : vma.inReplenishCycle with
      | true => rfl
      | false => exact absurd ⟨few, flag⟩ high
    · exact Or.inl (Nat.le_of_not_lt few)

/-- Replenishing after a node was taken: the MMIO tree is as before, and the new
slab page is owned. -/
theorem replenish_supplies {first second : Nat} {replenished : Vma}
    (sound : vma.Sound (SummaryExact exempt) shape (first :: second :: chain) [])
    (accounts : vma.Accounts shape (live ++ vma.slabRanges))
    (servable : ∀ node, vma.candidate (shape .heap) = some node →
      Servable exempt vma (shape .heap) node 4096 .regular slabFlags)
    (run : replenishSlabFromTree { vma.taken first with inReplenishCycle := true } =
      .ok replenished) :
    ∃ newShape newChain, replenished.Sound (SummaryExact exempt) newShape newChain [first] ∧
      replenished.Accounts newShape (live ++ replenished.slabRanges) ∧
      nodesPerPage ≤ newChain.length ∧ newShape .mmio = shape .mmio ∧
      ∀ other ∈ (shape .mmio).inorder, replenished.region other = vma.region other := by
  obtain ⟨_, taken, regions⟩ := takeNode_sound sound
  have same : Elsewhere [first] vma.nodes (vma.taken first).nodes := clearNode_elsewhere _ _
  have apart : ∀ other ∈ (shape .heap).inorder, other ∉ [first] :=
    apart_singleton (fun member => sound.layout.not_chain member mem_cons_self)
  have flagged : ({ vma.taken first with inReplenishCycle := true } : Vma).Sound
      (SummaryExact exempt) shape (second :: chain) [first] :=
    taken.sameNodes rfl
  obtain ⟨page, newShape, newChain, final, granted, slabs, many, _⟩ := replenish_sound flagged
    (fun node found => by
      have before : vma.candidate (shape .heap) = some node :=
        (candidate_unchanged same apart (sound.layout.linked .heap)).symm.trans found
      exact (servable node before).unchanged same apart (candidate_free before).1) run
  have grantedBefore := granted.from_same regions
  refine ⟨newShape, newChain, final, ?_, many, granted.sameShape .mmio (by decide), ?_⟩
  · refine (grantedBefore.accounts sound.geometry accounts).perm ?_
    unfold slabRanges
    rw [slabs, map_cons]
    exact perm_middle.symm
  · exact grantedBefore.sameRegions .mmio (by decide)

/-- The node for a split, in a state whose serving tree is as before. -/
theorem allocVmDsNode_supplies {new : Nat} {middle : Vma}
    (steady : vma.Steady exempt shape chain live) (stock : vma.Stocked exempt shape tree)
    (run : allocVmDsNode vma = .ok (new, middle)) :
    ∃ middleShape middleChain, middle.Sound (SummaryExact exempt) middleShape middleChain [new] ∧
      middle.Accounts middleShape (live ++ middle.slabRanges) ∧
      minimumAvailableNodes ≤ middleChain.length ∧ middle.inReplenishCycle = false ∧
      middleShape tree = shape tree ∧
      ∀ other ∈ (shape tree).inorder, middle.region other = vma.region other := by
  have sound := steady.sound
  have stocked := steady.stocked
  have counted := sound.layout.counted
  cases chain with
  | nil => cases stocked
  | cons first chain =>
    obtain ⟨is, split⟩ := allocVmDsNode_cases sound run
    obtain ⟨_, taken, regions⟩ := takeNode_sound sound
    rw [length_cons] at counted
    rcases split with ⟨middleIs, enough⟩ | ⟨low, replenished, replenishing, middleIs⟩
    · rw [is, middleIs]
      refine ⟨shape, chain, taken, ⟨steady.accounts.once, fun owner first amount => ?_⟩, ?_,
        steady.calm, rfl, regions tree⟩
      · rw [InUse.transport (regions owner)]
        exact steady.accounts.inUse owner first amount
      · rcases enough with plenty | flag
        · exact plenty
        · rw [steady.calm] at flag
          cases flag
    · rcases stock with plenty | ⟨isMmio, servable⟩
      · omega
      · cases chain with
        | nil => simp [minimumAvailableNodes] at stocked
        | cons second chain =>
          obtain ⟨newShape, newChain, final, accounts, many, shapeSame, regionsSame⟩ :=
            replenish_supplies sound steady.accounts servable replenishing
          rw [is, middleIs, isMmio]
          exact ⟨newShape, newChain,
            final.sameNodes rfl,
            ⟨accounts.once, accounts.inUse⟩, Nat.le_trans (by decide) many, rfl, shapeSame,
            regionsSame⟩

/-- A request that its tree can serve adds its range to the live ones, or is
refused without effect. -/
theorem allocate_steady (steady : vma.Steady exempt shape chain live) (busy : type ≠ .free)
    (positive : 0 < size) (whole : size % 4096 = 0)
    (safe : vma.SafeAllocate exempt shape tree size type flags)
    (run : vmaAllocateMemoryFromTree tree size type flags backing vma = .ok (start, after)) :
    (start = 0 ∧ after = vma) ∨ (start ≠ 0 ∧ ∃ newShape newChain,
      after.Steady exempt newShape newChain (⟨tree, start, size⟩ :: live)) := by
  have sound := steady.sound
  unfold vmaAllocateMemoryFromTree at run
  cases found : vma.candidate (shape tree) with
  | none => exact Or.inl (serve_none sound found busy run)
  | some node =>
    refine Or.inr ?_
    obtain ⟨servable, stock⟩ := safe node found
    have member := (candidate_free found).1
    have low := (sound.geometry.bounds member).1
    have base := treeStart_pos tree
    by_cases exactly : size = vma.sizeOf node
    · obtain ⟨startIs, final, granted, slabs, flag⟩ :=
        serve_whole sound found busy exactly (servable.exactly exactly) run
      refine ⟨by omega, shape, chain, final, ?_, steady.stocked, flag.trans steady.calm⟩
      have accounts := granted.accounts sound.geometry steady.accounts
      unfold slabRanges at accounts ⊢
      rw [slabs]
      exact accounts
    · have fits := servable.fits
      obtain ⟨carved, carving, _, _⟩ := serve_some sound found busy run
      rw [carve, if_neg (show ¬ size = (vma.region node).size from exactly)] at carving
      obtain ⟨⟨new, middle⟩, supply, _⟩ := bind_eq_ok carving
      obtain ⟨middleShape, middleChain, middleSound, accounts, many, calm, shapeSame,
        regionsSame⟩ := allocVmDsNode_supplies steady (stock exactly) supply
      obtain ⟨startIs, result, final, granted, slabs, flag⟩ := serve_split sound found busy
        positive whole (by omega) (servable.ordered exactly) supply middleSound shapeSame
        regionsSame run
      refine ⟨by omega, _, middleChain, final, ?_, many, flag.trans calm⟩
      have extended := granted.accounts middleSound.geometry accounts
      unfold slabRanges at extended ⊢
      rw [slabs]
      exact extended

end Allocate

end Vma

end Fesos
