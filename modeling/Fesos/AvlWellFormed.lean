/-
Balance.

A rotation restores balance unless the heavy child is level: it then gets a double
rotation, which leaves it too deep on its outer side when its inner subtree leans
away from it.  Insertion never creates a level heavy child, so it keeps a tree well
formed; removal does.
-/

import Fesos.AvlInsert
import Fesos.AvlWalk

set_option autoImplicit false

namespace Fesos

open BinaryTree Function
open List hiding nil rotateLeft rotateRight

/-! ### Rebalancing -/

/-- A left child with subtrees of equal height whose right subtree is deeper on its
right. -/
def LevelTrap : BinaryTree Nat → Prop
  | node _ outer (node _ innerLeft innerRight) =>
    outer.height = max innerLeft.height innerRight.height + 1 ∧
      innerLeft.height < innerRight.height
  | _ => False

instance : ∀ shape : BinaryTree Nat, Decidable (LevelTrap shape)
  | node _ outer (node _ innerLeft innerRight) => inferInstanceAs (Decidable
      (outer.height = max innerLeft.height innerRight.height + 1 ∧
        innerLeft.height < innerRight.height))
  | nil => inferInstanceAs (Decidable False)
  | node _ _ nil => inferInstanceAs (Decidable False)

variable {left right shape : BinaryTree Nat}

theorem levelTrap_factor (trap : LevelTrap shape) :
    shape.balanceFactor = 0 := by
  cases shape with
  | nil => rfl
  | node child outer inner =>
    cases inner with
    | nil => exact absurd trap id
    | node middle innerLeft innerRight =>
      have level := trap.1
      simp only [balanceFactor, height]
      omega

theorem rebalance_standing (pointer : Nat)
    (leftClose : left.height ≤ right.height + 1) (rightClose : right.height ≤ left.height + 1) :
    rebalance (node pointer left right) = node pointer left right := by
  unfold rebalance
  apply if_pos
  change (left.height : Int) - right.height < 2 ∧ (left.height : Int) - right.height > -2
  omega

/-- The height after a rotation: it drops unless the heavy child is level. -/
theorem rebalance_right_height (pointer : Nat)
    (rightBalanced : right.Balanced) (heavy : right.height = left.height + 2) :
    (right.balanceFactor = 0 → (rebalance (node pointer left right)).height = right.height + 1) ∧
      (right.balanceFactor ≠ 0 → (rebalance (node pointer left right)).height = right.height) := by
  obtain ⟨_, rebalanced⟩ := rebalance_turns pointer left right
  generalize rebalance (node pointer left right) = turned at rebalanced ⊢
  cases rebalanced with
  | stands => omega
  | right | doubleRight =>
    simp only [height] at heavy
    omega
  | left | doubleLeft =>
    simp only [BinaryTree.Balanced, balanceFactor, height] at rightBalanced heavy ⊢
    omega

/-- Only a trap leaves a left-heavy node unbalanced. -/
theorem rebalance_left (pointer : Nat) (leftBalanced : left.Balanced)
    (rightBalanced : right.Balanced) (heavy : left.height = right.height + 2) :
    (rebalance (node pointer left right)).Balanced ↔ ¬ LevelTrap left := by
  obtain ⟨_, rebalanced⟩ := rebalance_turns pointer left right
  generalize rebalance (node pointer left right) = turned at rebalanced ⊢
  cases rebalanced with
  | stands => omega
  | left | doubleLeft =>
    simp only [height] at heavy
    omega
  | right leaning =>
    obtain ⟨outerClose, innerClose, outerBalanced, innerBalanced⟩ := leftBalanced
    simp only [height] at heavy
    apply iff_of_true
    · simp only [BinaryTree.Balanced, height, outerBalanced, innerBalanced, rightBalanced, true_and, and_true]
      omega
    · intro trap
      have level := levelTrap_factor trap
      rw [balanceFactor] at level
      omega
  | doubleRight leaning =>
    obtain ⟨outerClose, innerClose, outerBalanced, leftInner, rightInner, innerLeftBalanced,
      innerRightBalanced⟩ := leftBalanced
    simp only [height] at heavy outerClose innerClose
    simp only [LevelTrap, BinaryTree.Balanced, height, outerBalanced, innerLeftBalanced,
      innerRightBalanced, rightBalanced, and_true]
    omega

theorem rebalance_right (pointer : Nat)
    (leftBalanced : left.Balanced) (rightBalanced : right.Balanced)
    (heavy : right.height = left.height + 2) :
    (rebalance (node pointer left right)).Balanced ↔ ¬ LevelTrap right.mirror := by
  obtain ⟨_, rebalanced⟩ := rebalance_turns pointer left right
  generalize rebalance (node pointer left right) = turned at rebalanced ⊢
  cases rebalanced with
  | stands => omega
  | right | doubleRight =>
    simp only [height] at heavy
    omega
  | left leaning =>
    obtain ⟨innerClose, outerClose, innerBalanced, outerBalanced⟩ := rightBalanced
    simp only [height] at heavy
    apply iff_of_true
    · simp only [BinaryTree.Balanced, height, outerBalanced, innerBalanced, leftBalanced, and_true]
      omega
    · intro trap
      have level := levelTrap_factor trap
      rw [mirror, balanceFactor, mirror_height, mirror_height] at level
      omega
  | doubleLeft leaning =>
    obtain ⟨innerClose, outerClose, ⟨leftInner, rightInner, innerLeftBalanced,
      innerRightBalanced⟩, outerBalanced⟩ := rightBalanced
    simp only [height] at heavy outerClose innerClose
    simp only [mirror, LevelTrap, mirror_height, BinaryTree.Balanced, height, outerBalanced,
      innerLeftBalanced, innerRightBalanced, leftBalanced, and_true]
    omega

/-- A subtree that grew is hung again: where it made its parent too high on one side, it
leans, and the rotation restores balance. -/
theorem rebalance_grown (frame : Frame Nat) {old new : BinaryTree Nat}
    (close : old.height ≤ frame.sibling.height + 1 ∧ frame.sibling.height ≤ old.height + 1)
    (newBalanced : new.Balanced) (siblingBalanced : frame.sibling.Balanced)
    (grows : new.height = old.height ∨
      new.height = old.height + 1 ∧ (0 < old.height → new.balanceFactor ≠ 0)) :
    (rebalance (frame.fill new)).Balanced ∧
      ((rebalance (frame.fill new)).height = (frame.fill old).height ∨
        (rebalance (frame.fill new)).height = (frame.fill old).height + 1 ∧
          (0 < (frame.fill old).height → (rebalance (frame.fill new)).balanceFactor ≠ 0)) := by
  cases frame with
  | left above sibling =>
    simp only [Frame.sibling, Frame.fill, height] at close siblingBalanced ⊢
    obtain ⟨_, rebalanced⟩ := rebalance_turns above new sibling
    generalize rebalance (node above new sibling) = turned at rebalanced ⊢
    cases rebalanced with
    | stands leftClose rightClose =>
      refine ⟨⟨leftClose, rightClose, newBalanced, siblingBalanced⟩, ?_⟩
      simp only [height, balanceFactor]
      omega
    | left | doubleLeft =>
      simp only [height] at close
      omega
    | right =>
      obtain ⟨_, _, outerBalanced, innerBalanced⟩ := newBalanced
      simp only [balanceFactor, height] at grows
      simp only [BinaryTree.Balanced, balanceFactor, height, outerBalanced, innerBalanced,
        siblingBalanced, true_and, and_true]
      omega
    | doubleRight =>
      obtain ⟨_, _, outerBalanced, _, _, innerLeftBalanced, innerRightBalanced⟩ := newBalanced
      simp only [balanceFactor, height] at *
      simp only [BinaryTree.Balanced, outerBalanced, innerLeftBalanced,
        innerRightBalanced, siblingBalanced, and_true, height]
      omega
  | right above sibling =>
    simp only [Frame.sibling, Frame.fill, height] at close siblingBalanced ⊢
    obtain ⟨_, rebalanced⟩ := rebalance_turns above sibling new
    generalize rebalance (node above sibling new) = turned at rebalanced ⊢
    cases rebalanced with
    | stands leftClose rightClose =>
      refine ⟨⟨leftClose, rightClose, siblingBalanced, newBalanced⟩, ?_⟩
      simp only [height, balanceFactor]
      omega
    | right | doubleRight =>
      simp only [height] at close
      omega
    | left =>
      obtain ⟨_, _, innerBalanced, outerBalanced⟩ := newBalanced
      simp only [balanceFactor, height] at grows
      simp only [BinaryTree.Balanced, balanceFactor, height, outerBalanced, innerBalanced,
        siblingBalanced, and_true]
      omega
    | doubleLeft =>
      obtain ⟨_, _, ⟨_, _, innerLeftBalanced, innerRightBalanced⟩, outerBalanced⟩ := newBalanced
      simp only [balanceFactor, height] at *
      simp only [BinaryTree.Balanced, outerBalanced, innerLeftBalanced,
        innerRightBalanced, siblingBalanced, and_true, height]
      omega

/-- Insertion keeps balance; where it makes a tree higher, the tree leans. -/
theorem insertTree_balanced (goesLeft : Nat → Bool) (new : Nat)
    (balanced : shape.Balanced) :
    (insertTree goesLeft new shape).Balanced ∧
      ((insertTree goesLeft new shape).height = shape.height ∨
        (insertTree goesLeft new shape).height = shape.height + 1 ∧
          (0 < shape.height → (insertTree goesLeft new shape).balanceFactor ≠ 0)) := by
  induction shape with
  | nil => exact ⟨⟨by decide, by decide, trivial, trivial⟩, Or.inr ⟨rfl, nofun⟩⟩
  | node pointer left right leftIh rightIh =>
    obtain ⟨leftClose, rightClose, leftBalanced, rightBalanced⟩ := balanced
    rw [insertTree]
    by_cases side : goesLeft pointer = true
    · rw [if_pos side]
      obtain ⟨newBalanced, grows⟩ := leftIh leftBalanced
      exact rebalance_grown (.left pointer right) ⟨leftClose, rightClose⟩ newBalanced rightBalanced
        grows
    · rw [if_neg side]
      obtain ⟨newBalanced, grows⟩ := rightIh rightBalanced
      exact rebalance_grown (.right pointer left) ⟨rightClose, leftClose⟩ newBalanced leftBalanced
        grows

namespace AvlStore

variable {Data Summary : Type} {callbacks : AvlCallbacks Data Summary}

def DepthsExact (store : AvlStore Data Summary) (shape : BinaryTree Nat) : Prop :=
  store.Settled (fun _ _ _ _ => True) shape

instance decidableDepthsExact (store : AvlStore Data Summary) :
    ∀ shape, Decidable (store.DepthsExact shape)
  | nil => isTrue trivial
  | node pointer left right =>
    have := decidableDepthsExact store left
    have := decidableDepthsExact store right
    inferInstanceAs (Decidable (store.subtreeMaxDepth pointer = max left.height right.height ∧
      True ∧ store.DepthsExact left ∧ store.DepthsExact right))

def Callable (callbacks : AvlCallbacks Data Summary) (store : AvlStore Data Summary)
    (pointer : Nat) : Prop :=
  store.update pointer = 0 ∨ ∃ callback, callbacks (store.update pointer) = some callback

theorem Callable.ready {store : AvlStore Data Summary} {pointer : Nat}
    (callable : store.Callable callbacks pointer) :
    store.Ready callbacks (fun _ _ _ _ => True) pointer := by
  by_cases none : store.update pointer = 0
  · exact Or.inl ⟨none, fun _ _ _ => trivial⟩
  · obtain ⟨callback, found⟩ := callable.resolve_left none
    exact Or.inr ⟨none, callback, found, fun _ _ => trivial⟩

section Restoring

variable {store : AvlStore Data Summary} {above pointer : Nat} {left right : BinaryTree Nat}

def Restored (callbacks : AvlCallbacks Data Summary) (store : AvlStore Data Summary)
    (above pointer : Nat) (left right : BinaryTree Nat) : Prop :=
  ∃ after result, avlCheckAndBalance callbacks pointer store = .ok (rootOf result, after) ∧
    after.Linked above result ∧ result.inorder = (node pointer left right).inorder ∧
    after.DepthsExact result ∧ result.Balanced

/-- A heavy child is not a trap, and the cached depth of a node that needs no
rotation is right. -/
def Restorable (store : AvlStore Data Summary) (pointer : Nat) (left right : BinaryTree Nat) :
    Prop :=
  if left.height = right.height + 2 then ¬ LevelTrap left
  else if right.height = left.height + 2 then ¬ LevelTrap right.mirror
  else store.subtreeMaxDepth pointer = max left.height right.height

instance (store : AvlStore Data Summary) (pointer : Nat) (left right : BinaryTree Nat) :
    Decidable (store.Restorable pointer left right) :=
  inferInstanceAs (Decidable (if left.height = right.height + 2 then ¬ LevelTrap left
    else if right.height = left.height + 2 then ¬ LevelTrap right.mirror
    else store.subtreeMaxDepth pointer = max left.height right.height))

theorem restored_iff_rebalanced (linked : store.Linked above (node pointer left right))
    (nodup : (node pointer left right).inorder.Nodup)
    (callable : ∀ other ∈ (node pointer left right).inorder, store.Callable callbacks other)
    (leftExact : store.DepthsExact left) (rightExact : store.DepthsExact right) :
    Restored callbacks store above pointer left right ↔
      (rebalance (node pointer left right)).Balanced ∧
        (left.height ≤ right.height + 1 ∧ right.height ≤ left.height + 1 →
          store.subtreeMaxDepth pointer = max left.height right.height) := by
  obtain ⟨acted, run, turned, exactly⟩ : ∃ acted, avlCheckAndBalance callbacks pointer store =
        .ok (rootOf (rebalance (node pointer left right)), acted) ∧
      acted.Linked above (rebalance (node pointer left right)) ∧
      (acted.DepthsExact (rebalance (node pointer left right)) ↔
        (left.height ≤ right.height + 1 ∧ right.height ≤ left.height + 1 →
          store.subtreeMaxDepth pointer = max left.height right.height)) := by
    rcases avlCheckAndBalance_acts linked nodup (fun other member => (callable other member).ready)
      leftExact rightExact with ⟨standing, run, stands⟩ | ⟨moves, acted, run, turned, settled, _⟩
    · rw [stands]
      exact ⟨store, run, linked, fun exact _ => exact.1,
        fun depth => ⟨depth standing, trivial, leftExact, rightExact⟩⟩
    · exact ⟨acted, run, turned, fun _ standing => absurd standing moves, fun _ => settled⟩
  constructor
  · rintro ⟨after, result, ran, resultLinked, _, exact, balanced⟩
    obtain ⟨sameRoot, sameStore⟩ := Prod.mk.inj (Except.ok.inj (run.symm.trans ran))
    rw [← sameStore] at resultLinked exact
    rw [← turned.unique resultLinked sameRoot] at exact balanced
    exact ⟨balanced, exactly.mp exact⟩
  · rintro ⟨balanced, depth⟩
    exact ⟨acted, _, run, turned, rebalance_inorder _, exactly.mpr depth, balanced⟩

/-- `avl_check_and_balance` restores balance, with exact depths and the same
sequence, exactly where the node is restorable. -/
theorem avlCheckAndBalance_restores_iff (linked : store.Linked above (node pointer left right))
    (nodup : (node pointer left right).inorder.Nodup)
    (callable : ∀ other ∈ (node pointer left right).inorder, store.Callable callbacks other)
    (leftExact : store.DepthsExact left) (rightExact : store.DepthsExact right)
    (leftBalanced : left.Balanced) (rightBalanced : right.Balanced)
    (leftClose : left.height ≤ right.height + 2) (rightClose : right.height ≤ left.height + 2) :
    Restored callbacks store above pointer left right ↔ store.Restorable pointer left right := by
  rw [restored_iff_rebalanced linked nodup callable leftExact rightExact]
  unfold Restorable
  by_cases leftHeavy : left.height = right.height + 2
  · rw [if_pos leftHeavy, rebalance_left pointer leftBalanced rightBalanced leftHeavy]
    constructor
    · exact fun facts => facts.1
    · exact fun free => ⟨free, fun standing => by omega⟩
  rw [if_neg leftHeavy]
  by_cases rightHeavy : right.height = left.height + 2
  · rw [if_pos rightHeavy, rebalance_right pointer leftBalanced rightBalanced rightHeavy]
    constructor
    · exact fun facts => facts.1
    · exact fun free => ⟨free, fun standing => by omega⟩
  have leftNear : left.height ≤ right.height + 1 := by omega
  have rightNear : right.height ≤ left.height + 1 := by omega
  rw [if_neg rightHeavy, rebalance_standing pointer leftNear rightNear]
  constructor
  · exact fun facts => facts.2 (by omega)
  · exact fun depth => ⟨⟨leftNear, rightNear, leftBalanced, rightBalanced⟩, fun _ => depth⟩

def leaningNodes : BinaryTree Nat :=
  node 3 (node 2 (node 1 nil nil) nil) nil

theorem avlCheckAndBalance_restores_iff_leaningNodes :
    Restored (fun _ => none) (ofShape leaningNodes) 0 3 (node 2 (node 1 nil nil) nil) nil := by
  have linked : (ofShape leaningNodes).Linked 0 leaningNodes := by decide
  exact (avlCheckAndBalance_restores_iff linked (by decide) (fun _ _ => Or.inl rfl) (by decide)
    (by decide) (by decide) (by decide) (by decide) (by decide)).mpr (by decide)

/-- The left child is level, and its right child has only a right child. -/
def trappedNodes : BinaryTree Nat :=
  node 6 (node 3 (node 2 (node 1 nil nil) nil) (node 4 nil (node 5 nil nil))) (node 7 nil nil)

theorem avlCheckAndBalance_leaves_unbalanced :
    ¬ Restored (fun _ => none) (ofShape trappedNodes) 0 6
      (node 3 (node 2 (node 1 nil nil) nil) (node 4 nil (node 5 nil nil))) (node 7 nil nil) := by
  have linked : (ofShape trappedNodes).Linked 0 trappedNodes := by decide
  intro restored
  have balanced := ((restored_iff_rebalanced linked (by decide) (fun _ _ => Or.inl rfl)
    (by decide) (by decide)).mp restored).1
  exact absurd balanced (by decide)

end Restoring

/-! ### Insertion -/

/-- The signs of a comparator that orders data, possibly with ties. -/
structure TotalPreorder (comp : Data → Data → Int) : Prop where
  swap : ∀ first second, 0 < comp first second ↔ comp second first < 0
  trans : ∀ first second third, comp first second ≤ 0 → comp second third ≤ 0 →
    comp first third ≤ 0

def computedBy (callback : Data → Option Summary → Option Summary → Summary) :
    Data → Option Summary → Option Summary → Summary → Prop :=
  fun data left right summary => summary = callback data left right

theorem computedBy_callback (callback : Data → Option Summary → Option Summary → Summary)
    (data : Data) (left right : Option Summary) :
    computedBy callback data left right (callback data left right) := rfl

/-- A well-formed AVL tree, ordered by `comp` and augmented by the callback at
`address`. -/
structure WellFormed (comp : Data → Data → Int)
    (callback : Data → Option Summary → Option Summary → Summary) (address : Nat)
    (store : AvlStore Data Summary) (shape : BinaryTree Nat) : Prop where
  linked : store.Linked 0 shape
  distinct : shape.inorder.Nodup
  balanced : shape.Balanced
  settled : store.Settled (computedBy callback) shape
  installed : ∀ pointer ∈ shape.inorder, store.update pointer = address
  sorted : shape.inorder.Pairwise
    (fun first second => comp (store.data first) (store.data second) ≤ 0)

section Insertion

variable {comp : Data → Data → Int}
  {callback : Data → Option Summary → Option Summary → Summary} {address new : Nat}
  {store : AvlStore Data Summary} {shape : BinaryTree Nat}

theorem avlInit_other (store : AvlStore Data Summary) (address : Nat) {pointer : Nat}
    (nonzero : new ≠ 0) (other : pointer ≠ new) :
    (store.avlInit new address).parent pointer = store.parent pointer ∧
      (store.avlInit new address).left pointer = store.left pointer ∧
      (store.avlInit new address).right pointer = store.right pointer ∧
      (store.avlInit new address).subtreeMaxDepth pointer = store.subtreeMaxDepth pointer ∧
      (store.avlInit new address).update pointer = store.update pointer := by
  unfold avlInit
  rw [if_neg nonzero]
  exact ⟨update_of_ne other _ _, update_of_ne other _ _,
    update_of_ne other _ _, update_of_ne other _ _,
    update_of_ne other _ _⟩

theorem avlInit_data (store : AvlStore Data Summary) (new address : Nat) :
    (store.avlInit new address).data = store.data := by
  unfold avlInit
  split
  · rfl
  · rfl

theorem avlInit_summary (store : AvlStore Data Summary) (new address : Nat) :
    (store.avlInit new address).summary = store.summary := by
  unfold avlInit
  split
  · rfl
  · rfl

/-- A node that is not in the tree can be initialised. -/
theorem avlInit_tree {goal : SummaryGoal Data Summary}
    {above : Nat} (address : Nat) (nonzero : new ≠ 0) (fresh : new ∉ shape.inorder)
    (linked : store.Linked above shape) (settled : store.Settled goal shape) :
    (store.avlInit new address).Linked above shape ∧
      (store.avlInit new address).Settled goal shape ∧
      ∀ pointer ∈ shape.inorder, (store.avlInit new address).update pointer = store.update pointer := by
  have apart : ∀ pointer ∈ shape.inorder, pointer ≠ new := by
    intro pointer member same
    rw [same] at member
    exact fresh member
  have kept := fun pointer member => avlInit_other store address nonzero (apart pointer member)
  refine ⟨?_, ?_, fun pointer member => (kept pointer member).2.2.2.2⟩
  · apply linked.transport
    · exact fun pointer member => (kept pointer member).1
    · exact fun pointer member => (kept pointer member).2.1
    · exact fun pointer member => (kept pointer member).2.2.1
  · apply settled.transport
    · exact fun pointer member => (kept pointer member).2.2.2.1
    · exact fun pointer _ => congrFun (avlInit_summary store new address) pointer
    · exact fun pointer _ => congrFun (avlInit_data store new address) pointer

theorem WellFormed.initialised (formed : store.WellFormed comp callback address shape)
    (nonzero : new ≠ 0) (fresh : new ∉ shape.inorder) :
    (store.avlInit new address).WellFormed comp callback address shape := by
  obtain ⟨linked, settled, update⟩ :=
    avlInit_tree address nonzero fresh formed.linked formed.settled
  constructor
  · exact linked
  · exact formed.distinct
  · exact formed.balanced
  · exact settled
  · intro pointer member
    rw [update pointer member]
    exact formed.installed pointer member
  · rw [avlInit_data]
    exact formed.sorted

theorem avlInit_freshLeaf (store : AvlStore Data Summary)
    (goal : SummaryGoal Data Summary) (address : Nat) (nonzero : new ≠ 0)
    (own : goal (store.data new) none none (store.summary new)) :
    (store.avlInit new address).FreshLeaf goal new ∧
      (store.avlInit new address).parent new = 0 ∧
      (store.avlInit new address).update new = address := by
  have met : goal ((store.avlInit new address).data new) none none
      ((store.avlInit new address).summary new) := by
    rw [avlInit_data, avlInit_summary]
    exact own
  unfold avlInit at met ⊢
  rw [if_neg nonzero] at met ⊢
  exact ⟨⟨nonzero, update_self _ _ _, update_self _ _ _,
    update_self _ _ _, met⟩, update_self _ _ _, update_self _ _ _⟩

/-- A sorted sequence splits at the place of any value. -/
theorem sorted_split (preorder : TotalPreorder comp) (data : Nat → Data) (value : Data)
    {order : List Nat}
    (sorted : order.Pairwise (fun first second => comp (data first) (data second) ≤ 0)) :
    ∃ front back, order = front ++ back ∧ (∀ pointer ∈ front, comp (data pointer) value ≤ 0) ∧
      ∀ pointer ∈ back, 0 < comp (data pointer) value := by
  induction order with
  | nil => exact ⟨[], [], rfl, nofun, nofun⟩
  | cons first rest ih =>
    obtain ⟨behind, restSorted⟩ := pairwise_cons.mp sorted
    by_cases low : comp (data first) value ≤ 0
    · obtain ⟨front, back, split, frontLow, backHigh⟩ := ih restSorted
      refine ⟨first :: front, back, by rw [split]; rfl, ?_, backHigh⟩
      exact forall_mem_cons.mpr ⟨low, frontLow⟩
    · refine ⟨[], first :: rest, rfl, nofun, ?_⟩
      intro pointer member
      rcases mem_cons.mp member with here | later
      · rw [here]
        omega
      · by_contra notHigh
        exact low (preorder.trans _ _ _ (behind pointer later) (by omega))

structure Inserted (comp : Data → Data → Int)
    (callback : Data → Option Summary → Option Summary → Summary) (address new : Nat)
    (store : AvlStore Data Summary) (shape : BinaryTree Nat) (after : AvlStore Data Summary)
    (result : BinaryTree Nat) : Prop where
  formed : after.WellFormed comp callback address result
  data : after.data = store.data
  order : ∃ front back, shape.inorder = front ++ back ∧ result.inorder = front ++ new :: back ∧
    (∀ pointer ∈ front, comp (store.data pointer) (store.data new) ≤ 0) ∧
    ∀ pointer ∈ back, 0 < comp (store.data pointer) (store.data new)

theorem sorted_insert (preorder : TotalPreorder comp) {data : Nat → Data} {front back : List Nat}
    (sorted : (front ++ back).Pairwise
      (fun first second => comp (data first) (data second) ≤ 0))
    (frontLow : ∀ pointer ∈ front, comp (data pointer) (data new) ≤ 0)
    (backHigh : ∀ pointer ∈ back, 0 < comp (data pointer) (data new)) :
    (front ++ new :: back).Pairwise
      (fun first second => comp (data first) (data second) ≤ 0) := by
  obtain ⟨frontSorted, backSorted, across⟩ := pairwise_append.mp sorted
  apply pairwise_append.mpr
  refine ⟨frontSorted, ?_, ?_⟩
  · apply pairwise_cons.mpr
    refine ⟨?_, backSorted⟩
    intro pointer member
    have turned := (preorder.swap _ _).mp (backHigh pointer member)
    omega
  · intro pointer inFront other inRest
    rcases mem_cons.mp inRest with isNew | inBack
    · rw [isNew]
      exact frontLow pointer inFront
    · exact across pointer inFront other inBack

theorem WellFormed.single (nonzero : new ≠ 0)
    (own : store.summary new = callback (store.data new) none none) :
    (store.avlInit new address).WellFormed comp callback address (node new nil nil) := by
  obtain ⟨leaf, top, installed⟩ := avlInit_freshLeaf store (computedBy callback) address nonzero own
  have linked := leaf.linked
  rw [top] at linked
  constructor
  · exact linked
  · exact nodup_singleton new
  · exact ⟨by decide, by decide, trivial, trivial⟩
  · exact leaf.settled
  · intro pointer member
    rw [mem_singleton.mp member]
    exact installed
  · exact pairwise_singleton _ _

/-- Insertion into a tree that is not empty. -/
theorem WellFormed.inserted {callbacks : AvlCallbacks Data Summary} {fuel : Nat}
    (formed : store.WellFormed comp callback address shape) (preorder : TotalPreorder comp)
    (found : callbacks address = some callback) (nonnull : address ≠ 0) (nonzero : new ≠ 0)
    (fresh : new ∉ shape.inorder)
    (own : store.summary new = callback (store.data new) none none) (present : shape ≠ nil)
    (enough : shape.height ≤ fuel) :
    ∃ after result, avlInsertRec callbacks (fun data => comp data (store.data new)) new fuel
        (rootOf shape) (store.avlInit new address) = .ok (rootOf result, after) ∧
      Inserted comp callback address new store shape after result := by
  obtain ⟨leaf, _, installed⟩ := avlInit_freshLeaf store (computedBy callback) address nonzero own
  have begun := formed.initialised nonzero fresh
  have addressed : ∀ pointer ∈ new :: shape.inorder,
      (store.avlInit new address).update pointer = address := by
    exact forall_mem_cons.mpr ⟨installed, begun.installed⟩
  have ready : ∀ pointer ∈ new :: shape.inorder,
      (store.avlInit new address).Ready callbacks (computedBy callback) pointer := by
    intro pointer member
    right
    rw [addressed pointer member]
    exact ⟨nonnull, callback, found, fun _ _ => rfl⟩
  obtain ⟨after, run, linked, settled, same⟩ := avlInsertRec_inserts
    (fun data => comp data (store.data new)) shape (store.avlInit new address) 0 fuel present
    enough begun.linked (nodup_cons.mpr ⟨fresh, formed.distinct⟩) leaf ready
    (begun.settled.off _)
  obtain ⟨front, back, split, frontLow, backHigh⟩ :=
    sorted_split preorder store.data (store.data new) formed.sorted
  have data : after.data = store.data := same.data.trans (avlInit_data store new address)
  have order : (insertTree (fun pointer => decide (comp ((store.avlInit new address).data pointer)
      (store.data new) > 0)) new shape).inorder = front ++ new :: back := by
    apply insertTree_inorder _ new shape split
    · intro pointer member
      rw [avlInit_data]
      exact decide_eq_false (Int.not_lt.mpr (frontLow pointer member))
    · intro pointer member
      rw [avlInit_data]
      exact decide_eq_true (backHigh pointer member)
  have members := insertTree_perm (fun pointer =>
    decide (comp ((store.avlInit new address).data pointer) (store.data new) > 0)) new shape
  refine ⟨after, _, run, ?_, data, front, back, split, order, frontLow, backHigh⟩
  constructor
  · exact linked
  · exact members.nodup_iff.mpr (nodup_cons.mpr ⟨fresh, formed.distinct⟩)
  · exact (insertTree_balanced _ new formed.balanced).1
  · exact settled
  · intro pointer member
    rw [same.update]
    exact addressed pointer (members.mem_iff.mp member)
  · have sorted := formed.sorted
    rw [split] at sorted
    rw [order, data]
    exact sorted_insert preorder sorted frontLow backHigh

/-- `avl_insert` keeps a tree well formed and puts the new node behind all nodes
that do not compare as greater. -/
theorem avlInsert_keeps_wellFormed {callbacks : AvlCallbacks Data Summary} {fuel : Nat}
    (preorder : TotalPreorder comp) (found : callbacks address = some callback)
    (nonnull : address ≠ 0) (formed : store.WellFormed comp callback address shape)
    (nonzero : new ≠ 0) (fresh : new ∉ shape.inorder)
    (own : store.summary new = callback (store.data new) none none)
    (enough : shape.height ≤ fuel) :
    ∃ after result, avlInsert callbacks (fun data => comp data (store.data new)) fuel
        (rootOf shape) new (store.avlInit new address) = .ok (rootOf result, after) ∧
      Inserted comp callback address new store shape after result := by
  unfold avlInsert
  by_cases empty : shape = nil
  · rw [empty]
    refine ⟨_, node new nil nil, rfl, WellFormed.single nonzero own, avlInit_data store new address,
      [], [], rfl, rfl, nofun, nofun⟩
  · rw [if_neg (formed.linked.root_ne_zero empty)]
    exact formed.inserted preorder found nonnull nonzero fresh own empty enough

def twoNumbers : AvlStore Int Int :=
  holding (node 2 (node 1 nil nil) nil) 8 (fun pointer => (pointer : Int))
    (fun pointer => if pointer = 1 then 1 else 3)

def addUp (value : Int) (left right : Option Int) : Int := value + left.getD 0 + right.getD 0

theorem avlInsert_keeps_wellFormed_twoNumbers :
    ∃ after result, avlInsert (fun _ => some addUp) (fun value => value - twoNumbers.data 3) 2 2 3
        (twoNumbers.avlInit 3 8) = .ok (rootOf result, after) ∧
      Inserted (fun first second => first - second) addUp 8 3 twoNumbers
        (node 2 (node 1 nil nil) nil) after result := by
  have preorder : TotalPreorder (fun first second : Int => first - second) :=
    ⟨fun first second => by omega, fun first second third => by omega⟩
  have formed : twoNumbers.WellFormed (fun first second => first - second) addUp 8
      (node 2 (node 1 nil nil) nil) := by
    constructor
    · decide
    · decide
    · decide
    · exact ⟨rfl, rfl, ⟨rfl, rfl, trivial, trivial⟩, trivial⟩
    · exact fun _ _ => rfl
    · decide
  exact avlInsert_keeps_wellFormed preorder rfl (by decide) formed (by decide) (by decide) rfl
    (by decide)

/-- A node with a key of its own is found by that key once it is inserted, within
twice the binary logarithm of the size. -/
theorem avlGetNode_inserted {callbacks : AvlCallbacks Data Summary} {fuel : Nat}
    (preorder : TotalPreorder comp) (found : callbacks address = some callback)
    (nonnull : address ≠ 0) (formed : store.WellFormed comp callback address shape)
    (nonzero : new ≠ 0) (own : store.summary new = callback (store.data new) none none)
    (enough : shape.height ≤ fuel)
    (distinct : ∀ pointer ∈ shape.inorder, comp (store.data pointer) (store.data new) ≠ 0) :
    ∃ root after, avlInsert callbacks (fun data => comp data (store.data new)) fuel
        (rootOf shape) new (store.avlInit new address) = .ok (root, after) ∧
      avlGetNode (fun after node => comp (after.data node) (after.data new))
        (2 * Nat.log 2 (shape.inorder.length + 1 + 1) + 2) root after = .ok new := by
  have reflexive : comp (store.data new) (store.data new) = 0 := by
    have := preorder.swap (store.data new) (store.data new)
    omega
  by_cases empty : shape = nil
  · subst empty
    refine ⟨new, _, rfl, ?_⟩
    simp [avlGetNode, avlGetNodeRec, nonzero, avlInit_data, reflexive]
  obtain ⟨after, result, run, kept, data, front, back, split, order, low, high⟩ :=
    formed.inserted preorder found nonnull nonzero (fun member => distinct new member reflexive)
      own empty enough
  have flat := Nat.le_log_of_pow_le (by decide) kept.balanced.two_pow_le
  have grown : result.inorder.length = shape.inorder.length + 1 := by
    simp [order, split, Nat.add_assoc]
  rw [grown] at flat
  refine ⟨_, after, (if_neg (formed.linked.root_ne_zero empty)).trans run, ?_⟩
  rw [avlGetNode_search _ kept.linked (by omega), data,
    search_found (fun node => comp (store.data node) (store.data new)) reflexive result order ?_ high]
  · rfl
  · intro pointer member
    have other := distinct pointer (split ▸ mem_append_left _ member)
    have := low pointer member
    omega

theorem avlGetNode_inserted_twoNumbers : ∃ root after,
    avlInsert (fun _ => some addUp) (fun value => value - 3) 1 1 3
      ((twoNumbers.avlInit 1 8).avlInit 3 8) = .ok (root, after) ∧
    avlGetNode (fun after node => after.data node - after.data 3) 4 root after = .ok 3 := by
  have preorder : TotalPreorder (fun first second : Int => first - second) :=
    ⟨fun first second => by omega, fun first second third => by omega⟩
  exact avlGetNode_inserted preorder rfl (by decide) (WellFormed.single (by decide) rfl)
    (by decide) rfl (by decide) (by decide)

end Insertion

end AvlStore

end Fesos
