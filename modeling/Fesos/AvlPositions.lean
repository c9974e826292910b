/-
Positions under rebalancing.

The way up from a removed node rebalances every node of a context.  A subtree that
did not grow is left whole, on its side of the node above it, so the place of a
node is known after its in-order successor was taken out.  `Removable` says on the
tree before the call which positions `avl_remove` is right for.
-/

import Fesos.AvlRemove
import Fesos.AvlWellFormed

set_option autoImplicit false

namespace Fesos

open BinaryTree
open List hiding nil rotateLeft rotateRight

/-! ### Taking out the first node -/

def dropFirst : BinaryTree Nat → BinaryTree Nat
  | nil => nil
  | node pointer left right =>
    if left = nil then right else rebalance (node pointer (dropFirst left) right)

def ShrinksFirst : BinaryTree Nat → Prop
  | nil => False
  | node _ left right =>
    left = nil ∨ (ShrinksFirst left ∧ (right.height < left.height ∨
      (left.height < right.height ∧ right.balanceFactor ≠ 0)))

instance decidableShrinksFirst : ∀ shape, Decidable (ShrinksFirst shape)
  | nil => isFalse id
  | node _ left right =>
    have := decidableShrinksFirst left
    inferInstanceAs (Decidable (left = nil ∨ (ShrinksFirst left ∧ (right.height < left.height ∨
      (left.height < right.height ∧ right.balanceFactor ≠ 0)))))

variable {shape : BinaryTree Nat}

theorem dropFirst_height (balanced : shape.Balanced)
    (present : shape ≠ nil) :
    (ShrinksFirst shape → (dropFirst shape).height + 1 = shape.height) ∧
      (¬ ShrinksFirst shape → (dropFirst shape).height = shape.height) := by
  induction shape with
  | nil => exact absurd rfl present
  | node pointer left right leftIh _ =>
    obtain ⟨leftClose, rightClose, leftBalanced, rightBalanced⟩ := balanced
    unfold dropFirst ShrinksFirst
    by_cases empty : left = nil
    · rw [if_pos empty]
      constructor
      · intro _
        rw [empty, height, height]
        omega
      · intro grows
        exact absurd (Or.inl empty) grows
    · rw [if_neg empty]
      obtain ⟨shrinks, stays⟩ := leftIh leftBalanced empty
      by_cases lower : ShrinksFirst left
      · have left' := shrinks lower
        by_cases heavy : left.height < right.height
        · have lean : right.height = (dropFirst left).height + 2 := by omega
          obtain ⟨level, leaning⟩ := rebalance_right_height pointer rightBalanced lean
          by_cases factor : right.balanceFactor = 0
          · have now := level factor
            constructor
            · intro claim
              rcases claim with absent | ⟨_, higher | ⟨_, odd⟩⟩
              · exact absurd absent empty
              · omega
              · exact absurd factor odd
            · intro _
              rw [now, height]
              omega
          · have now := leaning factor
            constructor
            · intro _
              rw [now, height]
              omega
            · intro grows
              exact absurd (Or.inr ⟨lower, Or.inr ⟨heavy, factor⟩⟩) grows
        · rw [rebalance_standing pointer (by omega) (by omega)]
          constructor
          · intro claim
            rcases claim with absent | ⟨_, higher | ⟨deeper, _⟩⟩
            · exact absurd absent empty
            · rw [height, height]
              omega
            · exact absurd deeper heavy
          · intro grows
            have level : ¬ right.height < left.height := fun higher =>
              grows (Or.inr ⟨lower, Or.inl higher⟩)
            rw [height, height]
            omega
      · have left' := stays lower
        rw [rebalance_standing pointer (by omega) (by omega)]
        constructor
        · intro claim
          rcases claim with absent | ⟨wrong, _⟩
          · exact absurd absent empty
          · exact absurd wrong lower
        · intro _
          rw [height, height, left']

theorem bubble_append (inner outer : List (Frame Nat)) (shape : BinaryTree Nat) :
    bubble (inner ++ outer) shape = bubble outer (bubble inner shape) := by
  induction inner generalizing shape with
  | nil => rfl
  | cons frame inner ih => exact ih (rebalance (frame.fill shape))

/-- Removing the first node in the code's way gives `dropFirst`. -/
theorem bubble_first {victim : Nat} {below : BinaryTree Nat} {inner : List (Frame Nat)}
    (nodup : shape.inorder.Nodup) (first : shape.inorder.head? = some victim)
    (found : focus victim shape = some (inner, nil, below)) :
    bubble inner below = dropFirst shape := by
  induction shape generalizing inner with
  | nil => cases found
  | node pointer left right leftIh _ =>
    unfold dropFirst
    by_cases empty : left = nil
    · rw [empty] at first found
      rw [if_pos empty]
      simp only [inorder_node, inorder_nil, nil_append, List.head?_cons,
        Option.some.injEq] at first
      rw [focus, if_pos first] at found
      cases found
      rfl
    · rw [if_neg empty]
      rw [inorder_node] at first nodup
      obtain ⟨head, rest, order⟩ := exists_cons_of_ne_nil
        (ne_nil_of_mem (AvlStore.rootOf_mem empty))
      have same : head = victim := by
        rw [order] at first
        exact Option.some.inj first
      have inLeft : left.inorder.head? = some victim := by
        rw [order, ← same]
        rfl
      have member : victim ∈ left.inorder := by
        rw [order, ← same]
        exact mem_cons_self
      have other : pointer ≠ victim := by
        intro equal
        rw [equal] at nodup
        exact (nodup_append.mp nodup).2.2 victim member victim mem_cons_self rfl
      obtain ⟨frames, lowLeft, lowRight, inside⟩ := focus_of_mem member
      rw [focus, if_neg other, inside] at found
      cases found
      rw [bubble_append, leftIh (nodup_append.mp nodup).1 inLeft inside]
      rfl

theorem dropFirst_inorder (shape : BinaryTree Nat) :
    (dropFirst shape).inorder = shape.inorder.tail := by
  induction shape with
  | nil => rfl
  | node pointer left right leftIh _ =>
    unfold dropFirst
    by_cases empty : left = nil
    · rw [if_pos empty, empty]
      rfl
    · rw [if_neg empty, rebalance_inorder, inorder_node, inorder_node, leftIh,
        tail_append_of_ne_nil]
      exact ne_nil_of_mem (AvlStore.rootOf_mem empty)

theorem dropFirst_eq_nil (present : shape ≠ nil) :
    dropFirst shape = nil ↔ ¬ 1 < shape.height := by
  have order := dropFirst_inorder shape
  cases shape with
  | nil => exact absurd rfl present
  | node pointer left right =>
    rw [height]
    constructor
    · intro gone
      rw [gone, inorder_nil, inorder_node] at order
      have short := congrArg List.length order
      simp only [length_nil, length_tail, length_append, length_cons] at short
      have leftShort := height_le_length left
      have rightShort := height_le_length right
      omega
    · intro low
      have leftNil : left = nil := height_eq_zero.mp (by omega)
      have rightNil : right = nil := height_eq_zero.mp (by omega)
      rw [leftNil, rightNil]
      rfl

/-! ### Rebalancing above a subtree that did not grow -/

def Upright : List (Frame Nat) → BinaryTree Nat → Prop
  | [], _ => True
  | frame :: frames, shape =>
    (shape.height ≤ frame.sibling.height + 1 ∧ frame.sibling.height ≤ shape.height + 1) ∧
      Upright frames (frame.fill shape)

theorem upright_append (inner outer : List (Frame Nat)) (shape : BinaryTree Nat) :
    Upright (inner ++ outer) shape ↔ Upright inner shape ∧ Upright outer (plug inner shape) := by
  induction inner generalizing shape with
  | nil => simp [Upright]
  | cons frame inner ih =>
    rw [cons_append, Upright, Upright, plug_cons, ih]
    exact and_assoc.symm

theorem upright_of_balanced (frames : List (Frame Nat))
    (balanced : (plug frames shape).Balanced) :
    Upright frames shape ∧ shape.Balanced ∧ ∀ frame ∈ frames, frame.sibling.Balanced := by
  induction frames generalizing shape with
  | nil => exact ⟨trivial, balanced, nofun⟩
  | cons frame frames ih =>
    obtain ⟨upright, filled, siblings⟩ := ih balanced
    cases frame with
    | left above sibling =>
      obtain ⟨leftClose, rightClose, shapeBalanced, siblingBalanced⟩ := filled
      exact ⟨⟨⟨leftClose, rightClose⟩, upright⟩, shapeBalanced,
        forall_mem_cons.mpr ⟨siblingBalanced, siblings⟩⟩
    | right above sibling =>
      obtain ⟨leftClose, rightClose, siblingBalanced, shapeBalanced⟩ := filled
      exact ⟨⟨⟨rightClose, leftClose⟩, upright⟩, shapeBalanced,
        forall_mem_cons.mpr ⟨siblingBalanced, siblings⟩⟩

/-- One frame of the way up: the subtree below it keeps its side, and the height
drops by at most one. -/
theorem rebalance_open (frame : Frame Nat) {old : BinaryTree Nat}
    (least : shape.height ≤ old.height) (most : old.height ≤ shape.height + 1)
    (upright : old.height ≤ frame.sibling.height + 1 ∧ frame.sibling.height ≤ old.height + 1) :
    (∃ near far, rebalance (frame.fill shape) = plug (near :: far) shape ∧
      isLeftChild (near :: far) = isLeftChild [frame] ∧
      (frame.sibling.Balanced → Upright (near :: far) shape)) ∧
      (rebalance (frame.fill shape)).height ≤ (frame.fill old).height ∧
      (frame.fill old).height ≤ (rebalance (frame.fill shape)).height + 1 := by
  cases frame with
  | left above sibling =>
    simp only [Frame.sibling, Frame.fill, height] at upright ⊢
    obtain ⟨_, rebalanced⟩ := rebalance_turns above shape sibling
    generalize rebalance (node above shape sibling) = turned at rebalanced ⊢
    cases rebalanced with
    | stands leftClose rightClose =>
      refine ⟨⟨.left above sibling, [], rfl, rfl, fun _ => ⟨⟨leftClose, rightClose⟩, trivial⟩⟩, ?_⟩
      rw [height]
      omega
    | right | doubleRight =>
      simp only [height] at least most
      omega
    | @left _ child _ inner outer =>
      simp only [height] at upright ⊢
      refine ⟨⟨.left above inner, [.left child outer], rfl, rfl, fun balanced => ?_⟩, by omega⟩
      simp only [BinaryTree.Balanced] at balanced
      simp only [Upright, Frame.sibling, Frame.fill, height, and_true]
      omega
    | @doubleLeft _ child middle _ innerLeft innerRight outer =>
      simp only [height] at upright ⊢
      refine ⟨⟨.left above innerLeft, [.left middle (node child innerRight outer)], rfl, rfl,
        fun balanced => ?_⟩, by omega⟩
      simp only [BinaryTree.Balanced, height] at balanced
      simp only [Upright, Frame.sibling, Frame.fill, height, and_true]
      omega
  | right above sibling =>
    simp only [Frame.sibling, Frame.fill, height] at upright ⊢
    obtain ⟨_, rebalanced⟩ := rebalance_turns above sibling shape
    generalize rebalance (node above sibling shape) = turned at rebalanced ⊢
    cases rebalanced with
    | stands leftClose rightClose =>
      refine ⟨⟨.right above sibling, [], rfl, rfl, fun _ => ⟨⟨rightClose, leftClose⟩, trivial⟩⟩, ?_⟩
      rw [height]
      omega
    | left | doubleLeft =>
      simp only [height] at least most
      omega
    | @right _ child outer inner =>
      simp only [height] at upright ⊢
      refine ⟨⟨.right above inner, [.right child outer], rfl, rfl, fun balanced => ?_⟩, by omega⟩
      simp only [BinaryTree.Balanced] at balanced
      simp only [Upright, Frame.sibling, Frame.fill, height, and_true]
      omega
    | @doubleRight _ child middle outer innerLeft innerRight =>
      simp only [height] at upright ⊢
      refine ⟨⟨.right above innerRight, [.right middle (node child outer innerLeft)], rfl, rfl,
        fun balanced => ?_⟩, by omega⟩
      simp only [BinaryTree.Balanced, height] at balanced
      simp only [Upright, Frame.sibling, Frame.fill, height, and_true]
      omega

/-- The way up leaves the subtree it started from whole and on its side. -/
theorem bubble_keeps (frames : List (Frame Nat)) :
    ∀ shape old : BinaryTree Nat, Upright frames old →
      (∀ frame ∈ frames, frame.sibling.Balanced) → shape.height ≤ old.height →
      old.height ≤ shape.height + 1 →
      ∃ outer, bubble frames shape = plug outer shape ∧
        isLeftChild outer = isLeftChild frames ∧ Upright outer shape := by
  induction frames with
  | nil =>
    intro shape old _ _ _ _
    exact ⟨[], rfl, rfl, trivial⟩
  | cons frame frames ih =>
    intro shape old upright siblings least most
    obtain ⟨⟨near, far, is, side, straight⟩, low, high⟩ :=
      rebalance_open frame least most upright.1
    obtain ⟨outer, kept, _, above⟩ := ih (rebalance (frame.fill shape)) (frame.fill old) upright.2
      (fun other member => siblings other (mem_cons_of_mem _ member)) low high
    refine ⟨near :: far ++ outer, ?_, ?_, ?_⟩
    · rw [bubble, kept, is, ← plug_append]
    · cases near with
      | left pointer sibling =>
        cases frame with
        | left above other => rfl
        | right above other => exact side
      | right pointer sibling =>
        cases frame with
        | left above other => exact side
        | right above other => rfl
    · rw [upright_append]
      refine ⟨straight (siblings frame mem_cons_self), ?_⟩
      rw [← is]
      exact above

/-! ### Positions -/

/-- The positions `avl_remove` is right for.  Where the node is lowered by a
rotation it is a right child afterwards and keeps an inner subtree of its left
child as its own left child. -/
def Removable (frames : List (Frame Nat)) (left right : BinaryTree Nat) : Prop :=
  if left = nil ∨ right = nil then (left = nil ∧ right = nil) ∨ frames ≠ []
  else 1 < right.height ∧
    if right.height < left.height ∧ ShrinksFirst right then
      if left.balanceFactor > 0 then left.right ≠ nil else left.right.right ≠ nil
    else isLeftChild frames = false

instance (frames : List (Frame Nat)) (left right : BinaryTree Nat) :
    Decidable (Removable frames left right) :=
  inferInstanceAs (Decidable (if left = nil ∨ right = nil then
      (left = nil ∧ right = nil) ∨ frames ≠ []
    else 1 < right.height ∧
      if right.height < left.height ∧ ShrinksFirst right then
        if left.balanceFactor > 0 then left.right ≠ nil else left.right.right ≠ nil
      else isLeftChild frames = false))

/-- Where a node with two children stands once its successor was taken out. -/
theorem lowered_place (pointer : Nat) {frames : List (Frame Nat)} {left right : BinaryTree Nat}
    (balanced : (plug frames (node pointer left right)).Balanced) (leftPresent : left ≠ nil)
    (rightPresent : right ≠ nil) :
    ∃ outer lowLeft, bubble (.right pointer left :: frames) (dropFirst right) =
        plug outer (node pointer lowLeft (dropFirst right)) ∧
      (Removable frames left right ↔
        lowLeft ≠ nil ∧ dropFirst right ≠ nil ∧ isLeftChild outer = false) ∧
      (isLeftChild outer = true → lowLeft.height ≤ (dropFirst right).height + 1 ∧
        (dropFirst right).height ≤ lowLeft.height + 1 ∧
        Upright outer (node pointer lowLeft (dropFirst right))) := by
  obtain ⟨upright, ⟨leftClose, rightClose, leftBalanced, rightBalanced⟩, siblings⟩ :=
    upright_of_balanced frames balanced
  obtain ⟨shrinks, stays⟩ := dropFirst_height rightBalanced rightPresent
  have least : (dropFirst right).height ≤ right.height := by
    by_cases lower : ShrinksFirst right
    · have drop := shrinks lower
      omega
    · exact le_of_eq (stays lower)
  have most : right.height ≤ (dropFirst right).height + 1 := by
    by_cases lower : ShrinksFirst right
    · exact le_of_eq (shrinks lower).symm
    · have same := stays lower
      omega
  obtain ⟨_, low, high⟩ := rebalance_open (.right pointer left) least most ⟨rightClose, leftClose⟩
  obtain ⟨outer, kept, side, straight⟩ :=
    bubble_keeps frames (rebalance (node pointer left (dropFirst right)))
      (node pointer left right) upright siblings low high
  have start : bubble (.right pointer left :: frames) (dropFirst right) =
      plug outer (rebalance (node pointer left (dropFirst right))) := kept
  have tall : 1 < right.height ↔ dropFirst right ≠ nil :=
    not_iff_not.mp ((dropFirst_eq_nil rightPresent).symm.trans not_not.symm)
  have onRight {lowLeft : BinaryTree Nat} : dropFirst right ≠ nil ∧ lowLeft ≠ nil ↔
      lowLeft ≠ nil ∧ dropFirst right ≠ nil ∧ false = false := by
    rw [and_iff_left rfl, and_comm]
  unfold Removable
  rw [if_neg (not_or.mpr ⟨leftPresent, rightPresent⟩), tall, start]
  by_cases heavy : right.height < left.height ∧ ShrinksFirst right
  · have lean : left.height = (dropFirst right).height + 2 := by
      have drop := shrinks heavy.2
      omega
    rw [if_pos heavy]
    obtain ⟨_, rebalanced⟩ := rebalance_turns pointer left (dropFirst right)
    generalize rebalance (node pointer left (dropFirst right)) = turned at rebalanced ⊢
    generalize dropFirst right = lower at *
    cases rebalanced with
    | stands => omega
    | left | doubleLeft =>
      simp only [height] at lean
      omega
    | @right _ child upper inner _ leaning =>
      rw [if_pos (by rw [balanceFactor]; omega)]
      exact ⟨.right child upper :: outer, inner, rfl, onRight,
        fun onLeft => Bool.noConfusion onLeft⟩
    | @doubleRight _ child middle upper innerLeft innerRight _ leaning =>
      rw [if_neg (by simp only [balanceFactor, height]; omega)]
      exact ⟨.right middle (node child upper innerLeft) :: outer, innerRight, rfl, onRight,
        fun onLeft => Bool.noConfusion onLeft⟩
  · have close : left.height ≤ (dropFirst right).height + 1 := by
      by_cases lower : ShrinksFirst right
      · have drop := shrinks lower
        have level : ¬ right.height < left.height := fun higher => heavy ⟨higher, lower⟩
        omega
      · rw [stays lower]
        exact leftClose
    have stands := rebalance_standing pointer close (show (dropFirst right).height ≤ _ by omega)
    rw [if_neg heavy]
    rw [stands] at straight ⊢
    refine ⟨outer, left, rfl, ?_, fun _ => ⟨close, by omega, straight⟩⟩
    rw [side]
    constructor
    · rintro ⟨present, place⟩
      exact ⟨leftPresent, present, place⟩
    · rintro ⟨_, present, place⟩
      exact ⟨present, place⟩

end Fesos
