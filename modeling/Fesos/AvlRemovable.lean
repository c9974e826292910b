/-
Where removal works.

`avl_remove` writes through the parent of a root with one child, and through the
missing child of a node that lost one while its successor was taken out; and it
hangs the successor of a left child on the wrong side of the parent.  Everywhere
else it deletes the node and nothing more.
-/

import Fesos.AvlStale

set_option autoImplicit false

namespace Fesos

open BinaryTree
open List hiding nil after

namespace AvlStore

variable {Data Summary : Type} {callbacks : AvlCallbacks Data Summary}

theorem detachLow_first (pointer : Nat) (frames : List (Frame Nat)) (left : BinaryTree Nat)
    {right : BinaryTree Nat} (present : right ≠ nil) (nodup : right.inorder.Nodup) :
    ∃ victim inner below, right.inorder.head? = some victim ∧
      focus victim right = some (inner, nil, below) ∧
      detachLow (inner ++ .right pointer left :: frames) below =
        some (bubble (.right pointer left :: frames) (dropFirst right)) := by
  obtain ⟨victim, inner, below, first, found, _, _⟩ := focus_first present nodup
  refine ⟨victim, inner, below, first, found, ?_⟩
  unfold detachLow
  rw [if_neg (fun wrong => by simp at wrong), bubble_append, bubble_first nodup first found]

def Deleted (callbacks : AvlCallbacks Data Summary) (fuel : Nat) (store : AvlStore Data Summary)
    (shape : BinaryTree Nat) (pointer : Nat) : Prop :=
  ∃ after result, avlRemove callbacks fuel (rootOf shape) pointer store =
      .ok (rootOf result, after) ∧
    after.Linked 0 result ∧ result.inorder = shape.inorder.erase pointer

section Removal

variable {store : AvlStore Data Summary} {frames : List (Frame Nat)} {pointer fuel : Nat}
  {left right : BinaryTree Nat}

theorem avlRemove_top (linked : store.Linked 0 (node pointer left right))
    (single : left = nil ∨ right = nil) (some : ¬ (left = nil ∧ right = nil)) :
    avlRemove callbacks (fuel + 1) pointer pointer store = .error .nullDereference := by
  obtain ⟨nonzero, top, leftIs, rightIs, leftLinked, rightLinked⟩ := linked
  have leftZero := leftLinked.root_eq_zero
  have rightZero := rightLinked.root_eq_zero
  rw [← leftIs] at leftZero
  rw [← rightIs] at rightZero
  have notLeaf : ¬ (store.left pointer = 0 ∧ store.right pointer = 0) := fun both =>
    some ⟨leftZero.mp both.1, rightZero.mp both.2⟩
  have notBoth : ¬ (store.left pointer ≠ 0 ∧ store.right pointer ≠ 0) := by
    rintro ⟨hasLeft, hasRight⟩
    rcases single with empty | empty
    · exact hasLeft (leftZero.mpr empty)
    · exact hasRight (rightZero.mpr empty)
  rw [avlRemove, if_neg nonzero, if_neg notLeaf, if_neg notBoth]
  exact if_pos top

theorem stale_not_erased {shape result : BinaryTree Nat} {final : AvlStore Data Summary} {up : Nat}
    (member : pointer ∈ shape.inorder) (linked : store.Linked 0 shape) (nodup : shape.inorder.Nodup)
    (finalLinked : final.Linked 0 result) (stale : final.left up = pointer)
    (upInside : up ∈ shape.inorder) (different : up ≠ pointer) :
    result.inorder ≠ shape.inorder.erase pointer := by
  intro order
  have upKept : up ∈ result.inorder := by
    rw [order]
    exact (mem_erase_of_ne different).mpr upInside
  rcases finalLinked.left_mem upKept with absent | kept
  · rw [stale] at absent
    exact linked.ne_zero member absent
  · rw [stale, order] at kept
    exact nodup.not_mem_erase kept

theorem detach_single (nodup : (plug frames (node pointer left right)).inorder.Nodup)
    (single : left = nil ∨ right = nil) (fits : (left = nil ∧ right = nil) ∨ frames ≠ []) :
    ∃ result, detach pointer (plug frames (node pointer left right)) = some result := by
  have low : ¬ ((if left = nil then right else left) ≠ nil ∧ frames = []) := by
    rintro ⟨grown, top⟩
    rcases fits with ⟨leftNil, rightNil⟩ | inner
    · rw [if_pos leftNil] at grown
      exact grown rightNil
    · exact inner top
  have whole : detach pointer (plug frames (node pointer left right)) =
      detachLow frames (if left = nil then right else left) := by
    unfold detach
    rw [focus_of_plug nodup rfl]
    dsimp only
    by_cases leftNil : left = nil
    · rw [if_pos leftNil, if_pos leftNil]
    · rw [if_neg leftNil, if_neg leftNil, if_pos (single.resolve_left leftNil)]
  rw [whole]
  exact ⟨_, if_neg low⟩

theorem Deleted.fits_single
    (linked : store.Linked 0 (plug frames (node pointer left right)))
    (enough : (plug frames (node pointer left right)).inorder.length + 2 < fuel)
    (single : left = nil ∨ right = nil)
    (deleted : Deleted callbacks fuel store (plug frames (node pointer left right)) pointer) :
    (left = nil ∧ right = nil) ∨ frames ≠ [] := by
  obtain ⟨after, result, run, _, _⟩ := deleted
  by_contra wrong
  rw [not_or, not_not] at wrong
  obtain ⟨some, top⟩ := wrong
  subst top
  obtain ⟨fuel, rfl⟩ : ∃ rest, fuel = rest + 1 := ⟨fuel - 1, by omega⟩
  rw [plug_nil, rootOf_node, avlRemove_top linked single some] at run
  cases run

/-- The successor of a left child is hung on the wrong side, so the node is not deleted. -/
theorem left_child_not_deleted {shape lowLeft lowRight : BinaryTree Nat} {victim : Nat}
    {outer : List (Frame Nat)} {removed final : AvlStore Data Summary} {result : BinaryTree Nat}
    (linked : store.Linked 0 shape) (nodup : shape.inorder.Nodup)
    (callable : ∀ other ∈ shape.inorder, store.Callable callbacks other)
    (removedSame : SameOutside shape.inorder store removed)
    (removedLinked : removed.Linked 0 (plug outer (node pointer lowLeft lowRight)))
    (removedExact : removed.DepthsExact (plug outer (node pointer lowLeft lowRight)))
    (victimInside : victim ∈ shape.inorder)
    (fresh : victim ∉ (plug outer (node pointer lowLeft lowRight)).inorder)
    (inside : (plug outer (node pointer lowLeft lowRight)).inorder.Sublist shape.inorder)
    (hasLeft : lowLeft ≠ nil) (hasRight : lowRight ≠ nil)
    (close : lowLeft.height ≤ lowRight.height + 1 ∧ lowRight.height ≤ lowLeft.height + 1 ∧
      Upright outer (node pointer lowLeft lowRight))
    (side : isLeftChild outer = true) (enough : shape.inorder.length ≤ fuel)
    (run : avlBubbleUpdateAndBalance callbacks (fuel + 2) victim (removed.takePlace victim pointer) =
      .ok (rootOf result, final)) (finalLinked : final.Linked 0 result) :
    result.inorder ≠ shape.inorder.erase pointer := by
  have loweredNodup := inside.nodup nodup
  have loweredShort := inside.length_le
  obtain ⟨leftClose, rightClose, upright⟩ := close
  cases outer with
  | nil => cases side
  | cons frame rest =>
    cases frame with
    | right up sibling => cases side
    | left up sibling =>
      have depth := height_le_plug (.left up sibling :: rest) (node pointer lowLeft lowRight)
      have short :=
        height_le_length (plug (.left up sibling :: rest) (node pointer lowLeft lowRight))
      rw [length_cons] at depth
      have calls : ∀ other ∈ victim ::
          (plug (.left up sibling :: rest) (node pointer lowLeft lowRight)).inorder,
          removed.Callable callbacks other := by
        intro other member
        unfold Callable
        rw [removedSame.update]
        apply callable other
        rcases mem_cons.mp member with same | old
        · rw [same]
          exact victimInside
        · exact inside.subset old
      obtain ⟨root, stopped, staleRun, stale⟩ := takePlace_stale removedLinked loweredNodup
        (linked.ne_zero victimInside) fresh calls removedExact hasLeft hasRight leftClose
        rightClose upright (show rest.length < fuel by omega)
      rw [staleRun] at run
      cases run
      have apart := nodup_append.mp ((plug_perm _ _).nodup_iff.mp loweredNodup)
      have pointerInside : pointer ∈ shape.inorder := by
        apply inside.subset
        rw [plug_inorder]
        simp
      have upInside : up ∈ shape.inorder :=
        inside.subset ((plug_perm _ _).mem_iff.mpr (mem_append_right _ mem_cons_self))
      have different : up ≠ pointer := fun same =>
        apart.2.2 pointer (by simp) up mem_cons_self same.symm
      exact stale_not_erased pointerInside linked nodup finalLinked stale upInside different

section

variable (linked : store.Linked 0 (plug frames (node pointer left right)))
  (nodup : (plug frames (node pointer left right)).inorder.Nodup)
  (callable : ∀ other ∈ (plug frames (node pointer left right)).inorder,
    store.Callable callbacks other)
  (depths : store.DepthsExact (plug frames (node pointer left right)))
  (enough : (plug frames (node pointer left right)).inorder.length + 2 < fuel)

include linked nodup callable depths enough

theorem deleted_of_detach {result : BinaryTree Nat}
    (detached : detach pointer (plug frames (node pointer left right)) = some result) :
    Deleted callbacks fuel store (plug frames (node pointer left right)) pointer := by
  have found := focus_of_plug nodup rfl
  have order : (plug frames (node pointer left right)).inorder =
      (before frames ++ left.inorder) ++ pointer :: (right.inorder ++ after frames) := by
    rw [plug_inorder]
    simp
  have absent : pointer ∉ before frames ++ left.inorder := by
    have apart := nodup
    rw [order] at apart
    intro member
    exact (nodup_append.mp apart).2.2 pointer member pointer mem_cons_self rfl
  obtain ⟨final, run, finalLinked, _, _⟩ := avlRemove_detaches linked nodup
    (fun other member => (callable other member).ready) enough found (Settled.around frames depths)
    detached
  refine ⟨final, result, run, finalLinked, ?_⟩
  rw [detach_inorder nodup order detached, order, erase_append_right _ absent,
    erase_cons_head]

/-- A node that is deleted was at a removable position, and a node at such a position is
detached. -/
theorem deleted_cases
    (balanced : (plug frames (node pointer left right)).Balanced) :
    (Deleted callbacks fuel store (plug frames (node pointer left right)) pointer →
      Removable frames left right) ∧
    (Removable frames left right →
      ∃ result, detach pointer (plug frames (node pointer left right)) = some result) := by
  by_cases single : left = nil ∨ right = nil
  · unfold Removable
    rw [if_pos single]
    exact ⟨fun deleted => deleted.fits_single linked enough single,
      fun fits => detach_single nodup single fits⟩
  obtain ⟨leftPresent, rightPresent⟩ := not_or.mp single
  have found := focus_of_plug nodup rfl
  have rightNodup : right.inorder.Nodup := by
    have order := (nodup_append.mp ((plug_perm _ _).nodup_iff.mp nodup)).1
    exact (nodup_cons.mp (nodup_append.mp order).2.1).2
  obtain ⟨victim, inner, below, first, victimAt, low⟩ :=
    detachLow_first pointer frames left rightPresent rightNodup
  obtain ⟨outer, lowLeft, loweredIs, fits, close⟩ :=
    lowered_place pointer balanced leftPresent rightPresent
  rw [loweredIs] at low
  rw [fits]
  obtain ⟨fuel, rfl⟩ : ∃ rest, fuel = rest + 3 := ⟨fuel - 3, by omega⟩
  have rooted : rootOf (plug frames (node pointer left right)) ≠ 0 := by
    apply linked.root_ne_zero
    intro empty
    rw [empty] at found
    cases found
  obtain ⟨removed, run, removedLinked, removedExact, removedSame, victimInside, fresh, inside⟩ :=
    avlRemove_successor linked nodup (fun other member => (callable other member).ready) rooted
      (show _ < fuel + 1 by omega) (Settled.around frames depths) leftPresent first victimAt low
  obtain ⟨_, _, here⟩ := (linked_plug _ _).mp removedLinked
  obtain ⟨_, _, lowLeftIs, lowRightIs, lowLeftLinked, lowRightLinked⟩ := here
  constructor
  · rintro ⟨final, result, finalRun, finalLinked, order⟩
    rw [run] at finalRun
    by_cases lost : removed.left pointer = 0 ∨ removed.right pointer = 0
    · rw [if_pos lost] at finalRun
      cases finalRun
    rw [if_neg lost] at finalRun
    rw [lowLeftIs, lowRightIs, lowLeftLinked.root_eq_zero, lowRightLinked.root_eq_zero,
      not_or] at lost
    refine ⟨lost.1, lost.2, ?_⟩
    cases side : isLeftChild outer with
    | false => rfl
    | true =>
      exact absurd order (left_child_not_deleted linked nodup callable removedSame removedLinked
        removedExact victimInside fresh inside lost.1 lost.2 (close side) side
        (show _ ≤ fuel by omega) finalRun finalLinked)
  · rintro ⟨hasLeft, hasRight, place⟩
    unfold detach
    rw [found]
    dsimp only
    rw [if_neg leftPresent, if_neg rightPresent, first, Option.bind_some, victimAt]
    dsimp only
    rw [low, Option.bind_some, Option.getD_some, replaceBy, focus_of_plug (inside.nodup nodup) rfl]
    dsimp only
    rw [if_neg (by rw [not_or, not_or, place]; exact ⟨hasLeft, hasRight, Bool.false_ne_true⟩)]
    exact ⟨_, rfl⟩

end

/-- `avl_remove` deletes exactly the node, without a NULL dereference, exactly at the
removable positions. -/
theorem avlRemove_deletes_iff
    (linked : store.Linked 0 (plug frames (node pointer left right)))
    (nodup : (plug frames (node pointer left right)).inorder.Nodup)
    (callable : ∀ other ∈ (plug frames (node pointer left right)).inorder,
      store.Callable callbacks other)
    (depths : store.DepthsExact (plug frames (node pointer left right)))
    (balanced : (plug frames (node pointer left right)).Balanced)
    (enough : (plug frames (node pointer left right)).inorder.length + 2 < fuel) :
    Deleted callbacks fuel store (plug frames (node pointer left right)) pointer ↔
      Removable frames left right := by
  have cases := deleted_cases linked nodup callable depths enough balanced
  constructor
  · exact cases.1
  · intro removable
    obtain ⟨result, detached⟩ := cases.2 removable
    exact deleted_of_detach linked nodup callable depths enough detached

end Removal

def leaningRoot : BinaryTree Nat := node 1 nil (node 2 nil nil)

def steadyNodes : BinaryTree Nat :=
  plug [.right 3 (node 2 (node 1 nil nil) nil)]
    (node 5 (node 4 nil nil) (node 7 (node 6 nil nil) nil))

def leftNodes : BinaryTree Nat :=
  node 6 (node 2 (node 1 nil nil) (node 4 (node 3 nil nil) (node 5 nil nil)))
    (node 8 (node 7 nil nil) nil)

theorem avlRemove_deletes_iff_steadyNodes :
    Deleted (fun _ => none) 10 (ofShape steadyNodes) steadyNodes 5 := by
  have linked : (ofShape steadyNodes).Linked 0 (plug [.right 3 (node 2 (node 1 nil nil) nil)]
    (node 5 (node 4 nil nil) (node 7 (node 6 nil nil) nil))) := by decide
  exact (avlRemove_deletes_iff linked (by decide) (fun _ _ => Or.inl rfl) (by decide) (by decide)
    (by decide)).mpr (by decide)

/-- A left child stays in the tree, and its parent loses the whole right subtree; a root
with one child makes the code write through NULL. -/
theorem avlRemove_fails :
    ((ofShape leftNodes).Linked 0 leftNodes ∧ leftNodes.inorder.Nodup ∧
      (ofShape leftNodes).DepthsExact leftNodes ∧ leftNodes.Balanced ∧
      ¬ Deleted (fun _ => none) 12 (ofShape leftNodes) leftNodes 2) ∧
    (ofShape leaningRoot).Linked 0 leaningRoot ∧ leaningRoot.inorder.Nodup ∧
      (ofShape leaningRoot).DepthsExact leaningRoot ∧ leaningRoot.Balanced ∧
      avlRemove (fun _ => none) 6 1 1 (ofShape leaningRoot) = .error .nullDereference := by
  have linked : (ofShape leftNodes).Linked 0 leftNodes := by decide
  have rootLinked : (ofShape leaningRoot).Linked 0 leaningRoot := by decide
  refine ⟨⟨linked, by decide, by decide, by decide, ?_⟩, rootLinked, by decide, by decide,
    by decide, ?_⟩
  · rintro ⟨after, result, run, afterLinked, order⟩
    have kept : (avlRemove (fun _ => none) 12 6 2 (ofShape leftNodes)).map
        (fun answer => answer.2.left 6) = .ok 2 := by decide +kernel
    rw [show (6 : Nat) = rootOf leftNodes from rfl, run] at kept
    exact stale_not_erased (by decide) linked (by decide) afterLinked (Except.ok.inj kept)
      (by decide) (by decide) order
  · exact avlRemove_top rootLinked (Or.inl rfl) (by decide)

end AvlStore

end Fesos
