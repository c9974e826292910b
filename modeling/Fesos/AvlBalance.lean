/-
Rotations and rebalancing on the represented tree.

Rotations act on the tree a store represents as `rotateRight` and `rotateLeft`,
`avlCheckAndBalance` acts as `rebalance`, and each touches only addresses of the
tree it is applied to.  Insertion and removal both hang a changed subtree below
its parent and rebalance there; `hang_and_balance` is that round.
-/

import Fesos.AvlShape

set_option autoImplicit false

namespace Fesos

open BinaryTree Function
open List hiding nil rotateLeft rotateRight

/-- The rotations chosen by `avl_check_and_balance`: a child with factor 0 gets a
double rotation. -/
def rebalance : BinaryTree Nat → BinaryTree Nat
  | nil => nil
  | node pointer left right =>
    let tree := node pointer left right
    if tree.balanceFactor < 2 ∧ tree.balanceFactor > -2 then tree
    else if tree.balanceFactor > 0 then
      if left.balanceFactor > 0 then tree.rotateRight
      else (node pointer left.rotateLeft right).rotateRight
    else
      if right.balanceFactor < 0 then tree.rotateLeft
      else (node pointer left right.rotateRight).rotateLeft

@[simp] theorem rebalance_inorder (tree : BinaryTree Nat) :
    (rebalance tree).inorder = tree.inorder := by
  cases tree with
  | nil => rfl
  | node pointer left right =>
    simp only [rebalance]
    split_ifs <;> simp

inductive Turning
  | stands
  | right
  | doubleRight
  | left
  | doubleLeft

/-- The rotations of a node in terms of heights, with the tree they lead to. -/
inductive Rebalanced : Turning → BinaryTree Nat → BinaryTree Nat → Prop
  | stands {pointer : Nat} {left right : BinaryTree Nat}
      (leftClose : left.height ≤ right.height + 1) (rightClose : right.height ≤ left.height + 1) :
      Rebalanced .stands (node pointer left right) (node pointer left right)
  | right {pointer child : Nat} {outer inner right : BinaryTree Nat}
      (leaning : inner.height < outer.height) (heavy : right.height < outer.height) :
      Rebalanced .right (node pointer (node child outer inner) right)
        (node child outer (node pointer inner right))
  | doubleRight {pointer child middle : Nat} {outer innerLeft innerRight right : BinaryTree Nat}
      (leaning : outer.height ≤ max innerLeft.height innerRight.height + 1)
      (heavy : right.height ≤ max innerLeft.height innerRight.height) :
      Rebalanced .doubleRight
        (node pointer (node child outer (node middle innerLeft innerRight)) right)
        (node middle (node child outer innerLeft) (node pointer innerRight right))
  | left {pointer child : Nat} {left inner outer : BinaryTree Nat}
      (leaning : inner.height < outer.height) (heavy : left.height < outer.height) :
      Rebalanced .left (node pointer left (node child inner outer))
        (node child (node pointer left inner) outer)
  | doubleLeft {pointer child middle : Nat} {left innerLeft innerRight outer : BinaryTree Nat}
      (leaning : outer.height ≤ max innerLeft.height innerRight.height + 1)
      (heavy : left.height ≤ max innerLeft.height innerRight.height) :
      Rebalanced .doubleLeft
        (node pointer left (node child (node middle innerLeft innerRight) outer))
        (node middle (node pointer left innerLeft) (node child innerRight outer))

/-- A child that is heavy without leaning outwards has an inner subtree. -/
theorem rebalance_turns (pointer : Nat) (left right : BinaryTree Nat) :
    ∃ turning, Rebalanced turning (node pointer left right) (rebalance (node pointer left right)) := by
  unfold rebalance
  dsimp only
  split_ifs with stands leftHeavy leaning leaning
  · rw [balanceFactor] at stands
    exact ⟨_, .stands (by omega) (by omega)⟩
  · rcases left with - | ⟨child, outer, inner⟩ <;>
      simp only [balanceFactor, height] at stands leftHeavy leaning
    · omega
    · exact ⟨_, .right (by omega) (by omega)⟩
  · rcases left with - | ⟨child, outer, - | ⟨middle, innerLeft, innerRight⟩⟩ <;>
      simp only [balanceFactor, height] at stands leftHeavy leaning
    · omega
    · omega
    · exact ⟨_, .doubleRight (by omega) (by omega)⟩
  · rcases right with - | ⟨child, inner, outer⟩ <;>
      simp only [balanceFactor, height] at stands leftHeavy leaning
    · omega
    · exact ⟨_, .left (by omega) (by omega)⟩
  · rcases right with - | ⟨child, - | ⟨middle, innerLeft, innerRight⟩, outer⟩ <;>
      simp only [balanceFactor, height] at stands leftHeavy leaning
    · omega
    · omega
    · exact ⟨_, .doubleLeft (by omega) (by omega)⟩

namespace AvlStore

variable {Data Summary : Type} {callbacks : AvlCallbacks Data Summary}
  {goal : SummaryGoal Data Summary}

/-! ### Rotations on the represented tree -/

theorem relinkRight_eq (store : AvlStore Data Summary) (pointer : Nat) :
    store.relinkRight pointer =
      { store with
        left := fun other =>
          if other = pointer then store.right (store.left pointer) else store.left other
        right := fun other => if other = store.left pointer then pointer else store.right other
        parent := fun other =>
          if other = pointer then store.left pointer
          else if other = store.left pointer then store.parent pointer
          else if other = store.right (store.left pointer) ∧ other ≠ 0 then pointer
          else store.parent other } := by
  unfold relinkRight setParent setLeft setRight
  dsimp only
  split_ifs with adopted <;> congr 1 <;> funext other <;>
    simp only [update_apply] <;> grind

theorem relinkLeft_eq (store : AvlStore Data Summary) (pointer : Nat) :
    store.relinkLeft pointer =
      { store with
        right := fun other =>
          if other = pointer then store.left (store.right pointer) else store.right other
        left := fun other => if other = store.right pointer then pointer else store.left other
        parent := fun other =>
          if other = pointer then store.right pointer
          else if other = store.right pointer then store.parent pointer
          else if other = store.left (store.right pointer) ∧ other ≠ 0 then pointer
          else store.parent other } := by
  unfold relinkLeft setParent setLeft setRight
  dsimp only
  split_ifs with adopted <;> congr 1 <;> funext other <;>
    simp only [update_apply] <;> grind

variable {inner innerLeft innerRight left outer right tree : BinaryTree Nat}

theorem rootOf_mem_of_ne_zero (present : rootOf tree ≠ 0) :
    rootOf tree ∈ tree.inorder :=
  rootOf_mem (fun empty => present (by rw [empty]; rfl))

variable {store : AvlStore Data Summary} {above child middle pointer : Nat}

theorem relinkRight_linked
    (linked : store.Linked above (node pointer (node child outer inner) right))
    (nodup : (node pointer (node child outer inner) right).inorder.Nodup) :
    (store.relinkRight pointer).Linked above (node child outer (node pointer inner right)) ∧
      SameOutside (node pointer (node child outer inner) right).inorder store
        (store.relinkRight pointer) := by
  obtain ⟨nonzero, parentIs, leftIs, rightIs, ⟨childNonzero, childParent, outerIs, innerIs,
    outerLinked, innerLinked⟩, rightLinked⟩ := linked
  rw [rootOf_node] at leftIs
  have innerRoot := @rootOf_mem_of_ne_zero inner
  have innerNonzero : inner ≠ nil → rootOf inner ≠ 0 := innerLinked.root_ne_zero
  simp only [inorder_node, append_assoc, cons_append, nodup_append,
    nodup_cons, mem_append, mem_cons, not_or] at nodup
  rw [relinkRight_eq, leftIs, innerIs]
  constructor
  · refine ⟨childNonzero, ?_, ?_, ?_, outerLinked.transport ?_ ?_ ?_, nonzero, ?_, ?_, ?_,
      innerLinked.reparent ?_ ?_ ?_ ?_ ?_, rightLinked.transport ?_ ?_ ?_⟩
    all_goals grind [rootOf_node]
  · constructor
    all_goals grind [inorder_node]

theorem relinkLeft_linked
    (linked : store.Linked above (node pointer left (node child inner outer)))
    (nodup : (node pointer left (node child inner outer)).inorder.Nodup) :
    (store.relinkLeft pointer).Linked above (node child (node pointer left inner) outer) ∧
      SameOutside (node pointer left (node child inner outer)).inorder store
        (store.relinkLeft pointer) := by
  obtain ⟨nonzero, parentIs, leftIs, rightIs, leftLinked, childNonzero, childParent, innerIs,
    outerIs, innerLinked, outerLinked⟩ := linked
  rw [rootOf_node] at rightIs
  have innerRoot := @rootOf_mem_of_ne_zero inner
  have innerNonzero : inner ≠ nil → rootOf inner ≠ 0 := innerLinked.root_ne_zero
  simp only [inorder_node, nodup_append, nodup_cons, mem_append, mem_cons,
    not_or] at nodup
  rw [relinkLeft_eq, rightIs, innerIs]
  constructor
  · refine ⟨childNonzero, ?_, ?_, ?_, ⟨nonzero, ?_, ?_, ?_, leftLinked.transport ?_ ?_ ?_,
      innerLinked.reparent ?_ ?_ ?_ ?_ ?_⟩, outerLinked.transport ?_ ?_ ?_⟩
    all_goals grind [rootOf_node]
  · constructor
    all_goals grind [inorder_node]

/-- The run turns a tree into another one of the same nodes and settles it. -/
def Turns (goal : Data → Option Summary → Option Summary → Summary → Prop)
    (run : Except Fault (Nat × AvlStore Data Summary)) (store : AvlStore Data Summary)
    (above : Nat) (tree turned : BinaryTree Nat) : Prop :=
  ∃ after, run = .ok (rootOf turned, after) ∧ after.Linked above turned ∧
    after.Settled goal turned ∧ SameOutside tree.inorder store after

/-- What is left of a rotation once the nodes are relinked. -/
theorem rotateWith_turns {relinked : AvlStore Data Summary}
    (linked : relinked.Linked above (node child left right))
    (same : SameOutside tree.inorder store relinked)
    (sameOrder : (node child left right).inorder = tree.inorder) (nodup : tree.inorder.Nodup)
    (ready : ∀ other ∈ tree.inorder, store.Ready callbacks goal other)
    (leftSettled : relinked.ChildrenSettled goal left)
    (rightSettled : relinked.ChildrenSettled goal right) :
    Turns goal (rotateWith callbacks child relinked) store above tree
      (node child left right) := by
  obtain ⟨after, run, settled, links, around⟩ := updateAround_settles linked
    (by rw [sameOrder]; exact nodup)
    (fun other member => (ready other (by rw [← sameOrder]; exact member)).outside same)
    leftSettled rightSettled
  rw [sameOrder] at around
  exact ⟨after, rotateWith_of_updated linked.1 run, links.linked linked, settled,
    same.trans around⟩

/-- A rotation of the represented tree, with its nodes settled. -/
theorem avlRotateRight_rotates
    (linked : store.Linked above (node pointer (node child outer inner) right))
    (nodup : (node pointer (node child outer inner) right).inorder.Nodup)
    (ready : ∀ other ∈ (node pointer (node child outer inner) right).inorder,
      store.Ready callbacks goal other)
    (outerSettled : store.Settled goal outer) (innerSettled : store.Settled goal inner)
    (rightSettled : store.Settled goal right) :
    Turns goal (avlRotateRight callbacks pointer store) store above
      (node pointer (node child outer inner) right)
      (node child outer (node pointer inner right)) := by
  obtain ⟨relinked, same⟩ := relinkRight_linked linked nodup
  have cached : ∀ tree, store.Settled goal tree → (store.relinkRight pointer).Settled goal tree := by
    intro tree settled
    rw [relinkRight_eq]
    exact settled.transport (fun _ _ => rfl) (fun _ _ => rfl) (fun _ _ => rfl)
  have turns := rotateWith_turns relinked same (by simp) nodup ready
    (cached _ outerSettled).children ⟨cached _ innerSettled, cached _ rightSettled⟩
  rw [show child = store.left pointer from linked.2.2.1.symm] at turns ⊢
  exact turns

theorem avlRotateLeft_rotates
    (linked : store.Linked above (node pointer left (node child inner outer)))
    (nodup : (node pointer left (node child inner outer)).inorder.Nodup)
    (ready : ∀ other ∈ (node pointer left (node child inner outer)).inorder,
      store.Ready callbacks goal other)
    (leftSettled : store.Settled goal left) (innerSettled : store.Settled goal inner)
    (outerSettled : store.Settled goal outer) :
    Turns goal (avlRotateLeft callbacks pointer store) store above
      (node pointer left (node child inner outer))
      (node child (node pointer left inner) outer) := by
  obtain ⟨relinked, same⟩ := relinkLeft_linked linked nodup
  have cached : ∀ tree, store.Settled goal tree → (store.relinkLeft pointer).Settled goal tree := by
    intro tree settled
    rw [relinkLeft_eq]
    exact settled.transport (fun _ _ => rfl) (fun _ _ => rfl) (fun _ _ => rfl)
  have turns := rotateWith_turns relinked same (by simp) nodup ready
    ⟨cached _ leftSettled, cached _ innerSettled⟩ (cached _ outerSettled).children
  rw [show child = store.right pointer from linked.2.2.2.1.symm] at turns ⊢
  exact turns

theorem setParent_sameOutside (store : AvlStore Data Summary) (pointer value : Nat) :
    SameOutside [pointer] store (store.setParent pointer value) :=
  { SameOutside.refl [pointer] store with
    parent := fun _ outside => update_of_ne (by simpa using outside) _ _ }

theorem setLeft_sameOutside (store : AvlStore Data Summary) (pointer value : Nat) :
    SameOutside [pointer] store (store.setLeft pointer value) :=
  { SameOutside.refl [pointer] store with
    left := fun _ outside => update_of_ne (by simpa using outside) _ _ }

theorem setRight_sameOutside (store : AvlStore Data Summary) (pointer value : Nat) :
    SameOutside [pointer] store (store.setRight pointer value) :=
  { SameOutside.refl [pointer] store with
    right := fun _ outside => update_of_ne (by simpa using outside) _ _ }

/-! ### Frames

A subtree that was changed is hung below its parent again; the parent keeps its
own parent and its other subtree. -/

def hang (store : AvlStore Data Summary) (frame : Frame Nat) (child : Nat) :
    AvlStore Data Summary :=
  match frame with
  | .left pointer _ => store.setLeft pointer child
  | .right pointer _ => store.setRight pointer child

def FrameLinked (store : AvlStore Data Summary) (above : Nat) (frame : Frame Nat) : Prop :=
  frame.above ≠ 0 ∧ store.parent frame.above = above ∧
    store.Linked frame.above frame.sibling ∧
    match frame with
    | .left pointer sibling => store.right pointer = rootOf sibling
    | .right pointer sibling => store.left pointer = rootOf sibling

theorem hang_sameOutside (store : AvlStore Data Summary) (frame : Frame Nat) (child : Nat) :
    SameOutside [frame.above] store (store.hang frame child) := by
  cases frame with
  | left pointer sibling => exact store.setLeft_sameOutside pointer child
  | right pointer sibling => exact store.setRight_sameOutside pointer child

theorem hang_settled
    (settled : store.Settled goal tree) (frame : Frame Nat) (child : Nat) :
    (store.hang frame child).Settled goal tree := by
  cases frame with
  | left pointer sibling =>
    exact settled.transport (fun _ _ => rfl) (fun _ _ => rfl) (fun _ _ => rfl)
  | right pointer sibling =>
    exact settled.transport (fun _ _ => rfl) (fun _ _ => rfl) (fun _ _ => rfl)

theorem FrameLinked.outside {before after : AvlStore Data Summary}
    {frame : Frame Nat} {nodes : List Nat} (linked : before.FrameLinked above frame)
    (same : SameOutside nodes before after) (notHere : frame.above ∉ nodes)
    (apart : ∀ pointer ∈ frame.sibling.inorder, pointer ∉ nodes) :
    after.FrameLinked above frame := by
  obtain ⟨nonzero, parentIs, siblingLinked, siblingIs⟩ := linked
  refine ⟨nonzero, (same.parent _ notHere).trans parentIs, siblingLinked.outside same apart, ?_⟩
  cases frame with
  | left pointer sibling => exact (same.right _ notHere).trans siblingIs
  | right pointer sibling => exact (same.left _ notHere).trans siblingIs

theorem Linked.frame (frame : Frame Nat) (linked : store.Linked above (frame.fill tree)) :
    store.FrameLinked above frame ∧ store.Linked frame.above tree := by
  cases frame with
  | left pointer sibling =>
    obtain ⟨nonzero, parentIs, _, rightIs, treeLinked, siblingLinked⟩ := linked
    exact ⟨⟨nonzero, parentIs, siblingLinked, rightIs⟩, treeLinked⟩
  | right pointer sibling =>
    obtain ⟨nonzero, parentIs, leftIs, _, siblingLinked, treeLinked⟩ := linked
    exact ⟨⟨nonzero, parentIs, siblingLinked, leftIs⟩, treeLinked⟩

theorem fill_nodup {frame : Frame Nat} :
    (frame.fill tree).inorder.Nodup ↔
      (frame.above ∉ tree.inorder ∧ frame.above ∉ frame.sibling.inorder) ∧
        tree.inorder.Nodup ∧ frame.sibling.inorder.Nodup ∧
        ∀ pointer ∈ tree.inorder, pointer ∉ frame.sibling.inorder := by
  cases frame with
  | left pointer sibling =>
    simp only [Frame.fill, Frame.above, Frame.sibling, inorder_node, nodup_cons,
      nodup_append]
    grind
  | right pointer sibling =>
    simp only [Frame.fill, Frame.above, Frame.sibling, inorder_node, nodup_cons,
      nodup_append]
    grind

theorem mem_fill {frame : Frame Nat} :
    pointer ∈ (frame.fill tree).inorder ↔
      pointer = frame.above ∨ pointer ∈ tree.inorder ∨ pointer ∈ frame.sibling.inorder := by
  cases frame with
  | left above sibling =>
    simp only [Frame.fill, Frame.above, Frame.sibling, inorder_node, mem_append,
      mem_cons]
    tauto
  | right above sibling =>
    simp only [Frame.fill, Frame.above, Frame.sibling, inorder_node, mem_append,
      mem_cons]
    tauto

theorem hang_linked {frame : Frame Nat} (framed : store.FrameLinked above frame)
    (below : store.Linked frame.above tree) (nodup : (frame.fill tree).inorder.Nodup) :
    (store.hang frame (rootOf tree)).Linked above (frame.fill tree) := by
  obtain ⟨⟨notTree, notSibling⟩, _⟩ := fill_nodup.mp nodup
  have hung := store.hang_sameOutside frame (rootOf tree)
  have single : ∀ other : BinaryTree Nat, frame.above ∉ other.inorder →
      ∀ pointer ∈ other.inorder, pointer ∉ [frame.above] :=
    fun other absent => apart_singleton absent
  obtain ⟨nonzero, parentIs, siblingLinked, siblingIs⟩ := framed
  have treeLinked := below.outside hung (single _ notTree)
  have siblingKept := siblingLinked.outside hung (single _ notSibling)
  cases frame with
  | left pointer sibling =>
    exact ⟨nonzero, parentIs, update_self _ _ _, siblingIs, treeLinked, siblingKept⟩
  | right pointer sibling =>
    exact ⟨nonzero, parentIs, siblingIs, update_self _ _ _, siblingKept, treeLinked⟩

/-- The run turns a child, and the turned child is hung again. -/
def TurnsBelow (goal : Data → Option Summary → Option Summary → Summary → Prop)
    (run : Except Fault (Nat × AvlStore Data Summary)) (store : AvlStore Data Summary)
    (above : Nat) (frame : Frame Nat) (tree turned : BinaryTree Nat) : Prop :=
  ∃ rotated, run = .ok (rootOf turned, rotated) ∧
    (rotated.hang frame (rootOf turned)).Linked above (frame.fill turned) ∧
    (rotated.hang frame (rootOf turned)).Settled goal turned ∧
    (rotated.hang frame (rootOf turned)).Settled goal frame.sibling ∧
    SameOutside (frame.fill tree).inorder store (rotated.hang frame (rootOf turned))

theorem Turns.below {frame : Frame Nat} {turned : BinaryTree Nat}
    {run : Except Fault (Nat × AvlStore Data Summary)}
    (turns : Turns goal run store frame.above tree turned)
    (sameOrder : turned.inorder = tree.inorder)
    (linked : store.Linked above (frame.fill tree)) (nodup : (frame.fill tree).inorder.Nodup)
    (siblingSettled : store.Settled goal frame.sibling) :
    TurnsBelow goal run store above frame tree turned := by
  obtain ⟨rotated, ran, turnedLinked, settled, same⟩ := turns
  obtain ⟨⟨notTree, notSibling⟩, separate, siblingNodup, crossing⟩ := fill_nodup.mp nodup
  have apart : ∀ pointer ∈ frame.sibling.inorder, pointer ∉ tree.inorder :=
    fun pointer inSibling inTree => crossing pointer inTree inSibling
  refine ⟨rotated, ran, ?_, hang_settled settled frame _,
    hang_settled (siblingSettled.outside same apart) frame _,
    (same.mono (fun _ member => mem_fill.mpr (Or.inr (Or.inl member)))).trans
      ((rotated.hang_sameOutside frame _).mono
        (fun _ member => mem_fill.mpr (Or.inl (mem_singleton.mp member))))⟩
  apply hang_linked ((linked.frame frame).1.outside same notTree apart) turnedLinked
  rw [← sameOrder] at notTree separate crossing
  exact fill_nodup.mpr ⟨⟨notTree, notSibling⟩, separate, siblingNodup, crossing⟩

/-- The run of a rotation. -/
def turn (callbacks : AvlCallbacks Data Summary) (pointer : Nat) (store : AvlStore Data Summary) :
    Turning → Except Fault (Nat × AvlStore Data Summary)
  | .stands => .ok (pointer, store)
  | .right => avlRotateRight callbacks pointer store
  | .doubleRight => do
    let rotated ← avlRotateLeft callbacks (store.left pointer) store
    avlRotateRight callbacks pointer (rotated.2.setLeft pointer rotated.1)
  | .left => avlRotateLeft callbacks pointer store
  | .doubleLeft => do
    let rotated ← avlRotateRight callbacks (store.right pointer) store
    avlRotateLeft callbacks pointer (rotated.2.setRight pointer rotated.1)

/-- The check reads the factors of the node and of a child that is too high. -/
theorem avlCheckAndBalance_turns {turning : Turning} {turned : BinaryTree Nat}
    (rebalanced : Rebalanced turning (node pointer left right) turned)
    (factor : store.avlGetBalanceFactor pointer = (node pointer left right).balanceFactor)
    (leftFactor : right.height + 1 < left.height →
      store.avlGetBalanceFactor (store.left pointer) = left.balanceFactor)
    (rightFactor : left.height + 1 < right.height →
      store.avlGetBalanceFactor (store.right pointer) = right.balanceFactor) :
    avlCheckAndBalance callbacks pointer store = turn callbacks pointer store turning := by
  unfold avlCheckAndBalance
  dsimp only
  cases rebalanced with
  | stands leftClose rightClose =>
    simp only [balanceFactor] at factor
    exact if_pos (by omega)
  | right leaning heavy =>
    simp only [balanceFactor, height] at factor leftFactor
    rw [if_neg (by omega), if_pos (by omega), if_pos (by rw [leftFactor (by omega)]; omega)]
    rfl
  | doubleRight leaning heavy =>
    simp only [balanceFactor, height] at factor leftFactor
    rw [if_neg (by omega), if_pos (by omega), if_neg (by rw [leftFactor (by omega)]; omega)]
    rfl
  | left leaning heavy =>
    simp only [balanceFactor, height] at factor rightFactor
    rw [if_neg (by omega), if_neg (by omega), if_pos (by rw [rightFactor (by omega)]; omega)]
    rfl
  | doubleLeft leaning heavy =>
    simp only [balanceFactor, height] at factor rightFactor
    rw [if_neg (by omega), if_neg (by omega), if_neg (by rw [rightFactor (by omega)]; omega)]
    rfl

theorem Linked.factor {low : Nat} (linked : store.Linked above tree)
    (settled : store.Settled goal tree) (tall : low < tree.height) :
    store.avlGetBalanceFactor (rootOf tree) = tree.balanceFactor := by
  cases tree with
  | nil => exact absurd tall (Nat.not_lt_zero _)
  | node pointer left right => exact balanceFactor_eq linked settled.2.2.1 settled.2.2.2

theorem Linked.check {turning : Turning} {turned : BinaryTree Nat}
    (linked : store.Linked above (node pointer left right))
    (leftSettled : store.Settled goal left) (rightSettled : store.Settled goal right)
    (rebalanced : Rebalanced turning (node pointer left right) turned) :
    avlCheckAndBalance callbacks pointer store = turn callbacks pointer store turning := by
  have factor := balanceFactor_eq linked leftSettled rightSettled
  obtain ⟨_, _, leftIs, rightIs, leftLinked, rightLinked⟩ := linked
  apply avlCheckAndBalance_turns rebalanced factor
  · rw [leftIs]
    exact leftLinked.factor leftSettled
  · rw [rightIs]
    exact rightLinked.factor rightSettled

section

variable (linked : store.Linked above
    (node pointer (node child outer (node middle innerLeft innerRight)) right))
  (nodup : (node pointer (node child outer (node middle innerLeft innerRight))
    right).inorder.Nodup)
  (ready : ∀ other ∈ (node pointer (node child outer (node middle innerLeft innerRight))
    right).inorder, store.Ready callbacks goal other)
  (leftSettled : store.Settled goal (node child outer (node middle innerLeft innerRight)))
  (rightSettled : store.Settled goal right)

include linked nodup ready leftSettled rightSettled

theorem left_child_rotates :
    TurnsBelow goal (avlRotateLeft callbacks child store) store above (.left pointer right)
      (node child outer (node middle innerLeft innerRight))
      (node middle (node child outer innerLeft) innerRight) := by
  obtain ⟨_, _, outerSettled, _, _, innerLeftSettled, innerRightSettled⟩ := leftSettled
  have turns := avlRotateLeft_rotates linked.2.2.2.2.1 (nodup_append.mp nodup).1
    (fun other member => ready other (mem_append_left _ member))
    outerSettled innerLeftSettled innerRightSettled
  exact turns.below (by simp) linked nodup rightSettled

theorem double_right_rotates :
    Turns goal (turn callbacks pointer store .doubleRight) store above
      (node pointer (node child outer (node middle innerLeft innerRight)) right)
      (node middle (node child outer innerLeft) (node pointer innerRight right)) := by
  obtain ⟨rotated, firstRun, hung, lowered, rightKept, hungSame⟩ :=
    left_child_rotates linked nodup ready leftSettled rightSettled
  have wholeOrder : (node pointer (node middle (node child outer innerLeft) innerRight)
      right).inorder =
      (node pointer (node child outer (node middle innerLeft innerRight)) right).inorder := by simp
  obtain ⟨after, secondRun, secondLinked, secondSettled, secondSame⟩ :=
    avlRotateRight_rotates hung (by rw [wholeOrder]; exact nodup)
      (fun other member => (ready other (by rw [← wholeOrder]; exact member)).outside hungSame)
      lowered.2.2.1 lowered.2.2.2 rightKept
  rw [wholeOrder] at secondSame
  rw [turn, show store.left pointer = child from linked.2.2.1, firstRun]
  exact ⟨after, secondRun, secondLinked, secondSettled, hungSame.trans secondSame⟩

end

section

variable (linked : store.Linked above
    (node pointer left (node child (node middle innerLeft innerRight) outer)))
  (nodup : (node pointer left (node child (node middle innerLeft innerRight)
    outer)).inorder.Nodup)
  (ready : ∀ other ∈ (node pointer left (node child (node middle innerLeft innerRight)
    outer)).inorder, store.Ready callbacks goal other)
  (leftSettled : store.Settled goal left)
  (rightSettled : store.Settled goal (node child (node middle innerLeft innerRight) outer))

include linked nodup ready leftSettled rightSettled

theorem right_child_rotates :
    TurnsBelow goal (avlRotateRight callbacks child store) store above (.right pointer left)
      (node child (node middle innerLeft innerRight) outer)
      (node middle innerLeft (node child innerRight outer)) := by
  obtain ⟨_, _, ⟨_, _, innerLeftSettled, innerRightSettled⟩, outerSettled⟩ := rightSettled
  have turns := avlRotateRight_rotates linked.2.2.2.2.2
    (nodup_cons.mp (nodup_append.mp nodup).2.1).2
    (fun other member => ready other (mem_append_right _ (mem_cons_of_mem _ member)))
    innerLeftSettled innerRightSettled outerSettled
  exact turns.below (by simp) linked nodup leftSettled

theorem double_left_rotates :
    Turns goal (turn callbacks pointer store .doubleLeft) store above
      (node pointer left (node child (node middle innerLeft innerRight) outer))
      (node middle (node pointer left innerLeft) (node child innerRight outer)) := by
  obtain ⟨rotated, firstRun, hung, lowered, leftKept, hungSame⟩ :=
    right_child_rotates linked nodup ready leftSettled rightSettled
  have wholeOrder : (node pointer left (node middle innerLeft
      (node child innerRight outer))).inorder =
      (node pointer left (node child (node middle innerLeft innerRight) outer)).inorder := by simp
  obtain ⟨after, secondRun, secondLinked, secondSettled, secondSame⟩ :=
    avlRotateLeft_rotates hung (by rw [wholeOrder]; exact nodup)
      (fun other member => (ready other (by rw [← wholeOrder]; exact member)).outside hungSame)
      leftKept lowered.2.2.1 lowered.2.2.2
  rw [wholeOrder] at secondSame
  rw [turn, show store.right pointer = child from linked.2.2.2.1, firstRun]
  exact ⟨after, secondRun, secondLinked, secondSettled, hungSame.trans secondSame⟩

end

section

variable (linked : store.Linked above (node pointer left right))
  (nodup : (node pointer left right).inorder.Nodup)
  (ready : ∀ other ∈ (node pointer left right).inorder, store.Ready callbacks goal other)

include linked nodup ready

/-- `avlCheckAndBalance` acts as `rebalance`.  A node that stands is not touched,
not even its own cached values; after a rotation they are all recomputed. -/
theorem avlCheckAndBalance_acts
    (leftSettled : store.Settled goal left) (rightSettled : store.Settled goal right) :
    (left.height ≤ right.height + 1 ∧ right.height ≤ left.height + 1) ∧
        avlCheckAndBalance callbacks pointer store = .ok (pointer, store) ∧
        rebalance (node pointer left right) = node pointer left right ∨
      ¬ (left.height ≤ right.height + 1 ∧ right.height ≤ left.height + 1) ∧
        Turns goal (avlCheckAndBalance callbacks pointer store) store above
          (node pointer left right) (rebalance (node pointer left right)) := by
  obtain ⟨turning, rebalanced⟩ := rebalance_turns pointer left right
  rw [linked.check leftSettled rightSettled rebalanced]
  generalize rebalance (node pointer left right) = turned at rebalanced ⊢
  cases rebalanced with
  | stands leftClose rightClose => exact Or.inl ⟨⟨leftClose, rightClose⟩, rfl, rfl⟩
  | right leaning heavy =>
    exact Or.inr ⟨by rw [height]; omega, avlRotateRight_rotates linked nodup
      ready leftSettled.2.2.1 leftSettled.2.2.2 rightSettled⟩
  | doubleRight leaning heavy =>
    exact Or.inr ⟨by simp only [height]; omega,
      double_right_rotates linked nodup ready leftSettled rightSettled⟩
  | left leaning heavy =>
    exact Or.inr ⟨by rw [height]; omega, avlRotateLeft_rotates linked nodup
      ready leftSettled rightSettled.2.2.1 rightSettled.2.2.2⟩
  | doubleLeft leaning heavy =>
    exact Or.inr ⟨by simp only [height]; omega,
      double_left_rotates linked nodup ready leftSettled rightSettled⟩

/-- `avlCheckAndBalance` rebalances the represented tree and keeps it settled. -/
theorem avlCheckAndBalance_rebalances
    (settled : store.Settled goal (node pointer left right)) :
    Turns goal (avlCheckAndBalance callbacks pointer store) store above (node pointer left right)
      (rebalance (node pointer left right)) := by
  rcases avlCheckAndBalance_acts linked nodup ready settled.2.2.1 settled.2.2.2 with
    ⟨_, run, stands⟩ | ⟨_, turns⟩
  · rw [stands]
    exact ⟨store, run, linked, settled, .refl _ _⟩
  · exact turns

end

/-- One round of rebalancing: update a node, then check and balance it. -/
theorem update_and_balance
    (present : tree ≠ nil) (linked : store.Linked above tree) (nodup : tree.inorder.Nodup)
    (ready : ∀ other ∈ tree.inorder, store.Ready callbacks goal other)
    (children : store.ChildrenSettled goal tree) :
    ∃ updated after, avlUpdate callbacks (rootOf tree) store = .ok updated ∧
      avlCheckAndBalance callbacks (rootOf tree) updated = .ok (rootOf (rebalance tree), after) ∧
      after.Linked above (rebalance tree) ∧ after.Settled goal (rebalance tree) ∧
      SameOutside tree.inorder store after := by
  obtain ⟨updated, updateRun, settled, links, same⟩ :=
    avlUpdate_settles linked nodup ready children
  cases tree with
  | nil => exact absurd rfl present
  | node pointer left right =>
    obtain ⟨after, run, balancedLinked, balancedSettled, balancedSame⟩ :=
      avlCheckAndBalance_rebalances (links.linked linked) nodup
        (fun other member => (ready other member).outside same) settled
    exact ⟨updated, after, updateRun, run, balancedLinked, balancedSettled,
      same.trans balancedSame⟩

theorem fill_ne_nil (frame : Frame Nat) (tree : BinaryTree Nat) : frame.fill tree ≠ nil := by
  cases frame <;> exact nofun

theorem rootOf_fill (frame : Frame Nat) (tree : BinaryTree Nat) :
    rootOf (frame.fill tree) = frame.above := by
  cases frame <;> rfl

theorem fill_children {frame : Frame Nat}
    (treeSettled : store.Settled goal tree) (siblingSettled : store.Settled goal frame.sibling) :
    store.ChildrenSettled goal (frame.fill tree) := by
  cases frame with
  | left pointer sibling => exact ⟨treeSettled, siblingSettled⟩
  | right pointer sibling => exact ⟨siblingSettled, treeSettled⟩

/-- Hang a settled subtree, then update and balance its parent. -/
theorem hang_and_balance {frame : Frame Nat} (framed : store.FrameLinked above frame)
    (below : store.Linked frame.above tree) (nodup : (frame.fill tree).inorder.Nodup)
    (ready : ∀ pointer ∈ (frame.fill tree).inorder, store.Ready callbacks goal pointer)
    (treeSettled : store.Settled goal tree) (siblingSettled : store.Settled goal frame.sibling) :
    ∃ updated after, avlUpdate callbacks frame.above (store.hang frame (rootOf tree)) =
        .ok updated ∧
      avlCheckAndBalance callbacks frame.above updated =
        .ok (rootOf (rebalance (frame.fill tree)), after) ∧
      after.Linked above (rebalance (frame.fill tree)) ∧
      after.Settled goal (rebalance (frame.fill tree)) ∧
      SameOutside (frame.fill tree).inorder store after := by
  have hung := store.hang_sameOutside frame (rootOf tree)
  have hungInside : [frame.above] ⊆ (frame.fill tree).inorder := by
    intro pointer member
    exact mem_fill.mpr (Or.inl (mem_singleton.mp member))
  obtain ⟨updated, after, updateRun, run, afterLinked, settled, same⟩ :=
    update_and_balance (fill_ne_nil frame tree) (hang_linked framed below nodup) nodup
      (fun pointer member => (ready pointer member).outside hung)
      (fill_children (hang_settled treeSettled frame _) (hang_settled siblingSettled frame _))
  rw [rootOf_fill] at updateRun run
  exact ⟨updated, after, updateRun, run, afterLinked, settled, (hung.mono hungInside).trans same⟩

end AvlStore

end Fesos
