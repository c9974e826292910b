/-
Removal on the represented tree.

`detach` is the tree `avl_remove` leaves, or `none` where the code goes wrong: a
root with one child (the missing parent is dereferenced), and a node with two
children that, once its in-order successor was taken out and the way up was
rebalanced, has lost a child (NULL is dereferenced) or is a left child (the
successor is hung on the parent's right instead).
-/

import Fesos.AvlWalk

set_option autoImplicit false

namespace Fesos

open BinaryTree Function
open List hiding nil after

def detachLow (frames : List (Frame Nat)) (child : BinaryTree Nat) : Option (BinaryTree Nat) :=
  if child ≠ nil ∧ frames = [] then none else some (bubble frames child)

def isLeftChild : List (Frame Nat) → Bool
  | .left _ _ :: _ => true
  | _ => false

def replaceBy (victim pointer : Nat) (shape : BinaryTree Nat) : Option (BinaryTree Nat) :=
  match focus pointer shape with
  | none => none
  | some (frames, left, right) =>
    if left = nil ∨ right = nil ∨ isLeftChild frames then none
    else some (bubble frames (rebalance (node victim left right)))

def detach (pointer : Nat) (shape : BinaryTree Nat) : Option (BinaryTree Nat) :=
  match focus pointer shape with
  | none => none
  | some (frames, left, right) =>
    if left = nil then detachLow frames right
    else if right = nil then detachLow frames left
    else
      match right.inorder.head?.bind (fun victim => focus victim right) with
      | none => none
      | some (inner, _, below) =>
        (detachLow (inner ++ .right pointer left :: frames) below).bind
          (replaceBy (right.inorder.head?.getD 0) pointer)

variable {result shape : BinaryTree Nat}

theorem detachLow_inorder {frames : List (Frame Nat)} {child : BinaryTree Nat}
    (low : detachLow frames child = some result) :
    result.inorder = before frames ++ child.inorder ++ after frames := by
  unfold detachLow at low
  split at low
  · cases low
  · cases low
    rw [bubble_inorder, plug_inorder]

theorem replaceBy_inorder {victim pointer : Nat}
    {front back : List Nat} (nodup : shape.inorder.Nodup)
    (order : shape.inorder = front ++ pointer :: back)
    (replaced : replaceBy victim pointer shape = some result) :
    result.inorder = front ++ victim :: back := by
  obtain ⟨frames, left, right, found, frontIs, backIs⟩ := focus_at nodup order
  unfold replaceBy at replaced
  rw [found] at replaced
  simp only at replaced
  split at replaced
  · cases replaced
  · cases replaced
    rw [bubble_inorder, plug_inorder, rebalance_inorder, inorder_node, frontIs, backIs]
    simp

theorem inorder_eq_nil (empty : shape.inorder = []) : shape = nil := by
  cases shape with
  | nil => rfl
  | node pointer left right => simp at empty

theorem focus_first (present : shape ≠ nil)
    (nodup : shape.inorder.Nodup) :
    ∃ victim inner below, shape.inorder.head? = some victim ∧
      focus victim shape = some (inner, nil, below) ∧ before inner = [] ∧
      shape.inorder = victim :: (below.inorder ++ after inner) := by
  obtain ⟨victim, rest, order⟩ := exists_cons_of_ne_nil
    (fun empty => present (inorder_eq_nil empty))
  have atFront : shape.inorder = [] ++ victim :: rest := order
  obtain ⟨inner, left, below, found, frontIs, backIs⟩ := focus_at nodup atFront
  obtain ⟨beforeNil, leftNil⟩ := append_eq_nil_iff.mp frontIs.symm
  refine ⟨victim, inner, below, by rw [order]; rfl, ?_, beforeNil, by rw [order, backIs]⟩
  rw [found, inorder_eq_nil leftNil]

theorem focus_of_detach {pointer : Nat} (detached : detach pointer shape = some result) :
    pointer ∈ shape.inorder ∧
      ∃ frames left right, focus pointer shape = some (frames, left, right) := by
  have member : pointer ∈ shape.inorder := by
    by_contra absent
    unfold detach at detached
    rw [focus_eq_none absent] at detached
    cases detached
  exact ⟨member, focus_of_mem member⟩

/-- Removal deletes exactly the node from the in-order sequence. -/
theorem detach_inorder {pointer : Nat} {front back : List Nat}
    (nodup : shape.inorder.Nodup) (order : shape.inorder = front ++ pointer :: back)
    (detached : detach pointer shape = some result) : result.inorder = front ++ back := by
  obtain ⟨frames, left, right, found, frontIs, backIs⟩ := focus_at nodup order
  unfold detach at detached
  rw [found] at detached
  simp only at detached
  split at detached
  · rename_i leftNil
    rw [detachLow_inorder detached, frontIs, backIs, leftNil]
    simp
  split at detached
  · rename_i rightNil
    rw [detachLow_inorder detached, frontIs, backIs, rightNil]
    simp
  rename_i leftPresent rightPresent
  have rightNodup : right.inorder.Nodup := by
    rw [order, backIs] at nodup
    exact (nodup_append.mp (nodup_cons.mp (nodup_append.mp nodup).2.1).2).1
  obtain ⟨victim, inner, below, headIs, victimAt, beforeInner, rightOrder⟩ :=
    focus_first rightPresent rightNodup
  simp only [headIs, Option.bind_some, victimAt, Option.getD_some] at detached
  obtain ⟨lowered, low, replaced⟩ := Option.bind_eq_some_iff.mp detached
  have loweredOrder : lowered.inorder =
      front ++ pointer :: (below.inorder ++ after inner ++ after frames) := by
    rw [detachLow_inorder low, before_append, after_append, beforeInner, frontIs]
    simp [before, after]
  have loweredNodup : lowered.inorder.Nodup := by
    rw [loweredOrder]
    rw [order, backIs, rightOrder] at nodup
    refine nodup.sublist ?_
    simp
  rw [replaceBy_inorder loweredNodup loweredOrder replaced, backIs, rightOrder]
  simp

namespace AvlStore

variable {Data Summary : Type} {callbacks : AvlCallbacks Data Summary}
  {goal : SummaryGoal Data Summary}

variable {store : AvlStore Data Summary} {frames : List (Frame Nat)}
  {fuel pointer root victim : Nat}

theorem replaceChild_hang {frame : Frame Nat} (child : Nat)
    (up : store.parent pointer = frame.above) (hooked : store.Hooked (frame :: frames) pointer) :
    store.replaceChild pointer child = store.hang frame child := by
  unfold replaceChild
  rw [up]
  cases frame with
  | left above sibling => exact if_pos hooked
  | right above sibling => exact if_neg hooked

/-- The subtrees around a position are settled; the nodes above it need not be. -/
structure SettledAround (goal : Data → Option Summary → Option Summary → Summary → Prop)
    (store : AvlStore Data Summary) (frames : List (Frame Nat)) (left right : BinaryTree Nat) :
    Prop where
  left : store.Settled goal left
  right : store.Settled goal right
  siblings : ∀ frame ∈ frames, store.Settled goal frame.sibling

variable {left result right shape : BinaryTree Nat}

theorem Settled.of_plug (frames : List (Frame Nat)) (settled : store.Settled goal (plug frames shape)) :
    store.Settled goal shape ∧ ∀ frame ∈ frames, store.Settled goal frame.sibling := by
  induction frames generalizing shape with
  | nil => exact ⟨settled, nofun⟩
  | cons frame frames ih =>
    obtain ⟨filled, siblings⟩ := ih settled
    cases frame with
    | left above sibling =>
      refine ⟨filled.2.2.1, ?_⟩
      rintro other (_ | ⟨_, member⟩)
      · exact filled.2.2.2
      · exact siblings other member
    | right above sibling =>
      refine ⟨filled.2.2.2, ?_⟩
      rintro other (_ | ⟨_, member⟩)
      · exact filled.2.2.1
      · exact siblings other member

theorem Settled.around (frames : List (Frame Nat))
    (settled : store.Settled goal (plug frames (node pointer left right))) :
    SettledAround goal store frames left right := by
  obtain ⟨⟨_, _, leftSettled, rightSettled⟩, siblings⟩ := settled.of_plug frames
  exact ⟨leftSettled, rightSettled, siblings⟩

/-- Types 1 and 2 of `avl_remove`: at most one child. -/
theorem avlRemove_low {child : BinaryTree Nat}
    (linked : store.Linked 0 (plug frames (node pointer left right)))
    (nodup : (plug frames (node pointer left right)).inorder.Nodup)
    (ready : ∀ other ∈ (plug frames (node pointer left right)).inorder,
      store.Ready callbacks goal other)
    (rooted : root ≠ 0) (enough : frames.length < fuel)
    (single : (left = nil ∧ child = right) ∨ (right = nil ∧ child = left))
    (around : SettledAround goal store frames left right)
    (low : detachLow frames child = some result) :
    ∃ after, avlRemove callbacks (fuel + 1) root pointer store = .ok (rootOf result, after) ∧
      after.Linked 0 result ∧ after.Settled goal result ∧
      SameOutside (plug frames (node pointer left right)).inorder store after := by
  obtain ⟨aboveLinked, childIs, here⟩ := (linked_plug _ _).mp linked
  obtain ⟨nonzero, parentIs, leftIs, rightIs, leftLinked, rightLinked⟩ := id here
  have perm := plug_perm frames (node pointer left right)
  have separate := perm.nodup_iff.mp nodup
  have outside : pointer ∉ surroundings frames := fun member =>
    (nodup_append.mp separate).2.2 pointer (by simp) pointer member rfl
  have hooked := childIs.hooked aboveLinked nonzero outside
  have childLinked : store.Linked pointer child := by
    rcases single with ⟨_, same⟩ | ⟨_, same⟩ <;> rw [same] <;> assumption
  have childSettled : store.Settled goal child := by
    rcases single with ⟨_, same⟩ | ⟨_, same⟩ <;> rw [same]
    · exact around.right
    · exact around.left
  have childInside : child.inorder.Sublist (node pointer left right).inorder := by
    rcases single with ⟨_, same⟩ | ⟨_, same⟩ <;> rw [same] <;> simp
  have childNodup : (plug frames child).inorder.Nodup :=
    (plug_perm frames child).nodup_iff.mpr
      (separate.sublist (childInside.append_right _))
  have contained : ∀ other ∈ (plug frames child).inorder,
      other ∈ (plug frames (node pointer left right)).inorder := by
    intro other member
    rw [(plug_perm frames child).mem_iff, mem_append] at member
    rw [perm.mem_iff, mem_append]
    exact member.imp_left (fun inChild => childInside.subset inChild)
  unfold detachLow at low
  by_cases empty : child = nil
  · have bothNil : left = nil ∧ right = nil := by
      rcases single with ⟨isNil, same⟩ | ⟨isNil, same⟩
      · exact ⟨isNil, same ▸ empty⟩
      · exact ⟨same ▸ empty, isNil⟩
    have leaf : store.left pointer = 0 ∧ store.right pointer = 0 := by
      rw [leftIs, rightIs, bothNil.1, bothNil.2]
      exact ⟨rfl, rfl⟩
    rw [if_neg (fun wrong => wrong.1 empty), Option.some.injEq] at low
    subst low
    rw [avlRemove, if_neg rooted, if_pos leaf, parentIs]
    cases frames with
    | nil =>
      rw [empty]
      exact ⟨store, rfl, trivial, trivial, .refl _ _⟩
    | cons frame frames =>
      rw [parentOf, if_neg aboveLinked.1.1, replaceChild_hang 0 parentIs hooked]
      obtain ⟨after, run, afterLinked, settled, same⟩ :=
        hang_and_bubble (Nat.lt_of_succ_lt enough) aboveLinked
          (show store.Linked frame.above child by rw [empty]; trivial) childNodup
          (fun other member => ready other (contained other member)) childSettled
          around.siblings
      rw [empty] at run
      exact ⟨after, by rw [empty]; exact run, afterLinked, settled, same.mono contained⟩
  · have grown : frames ≠ [] := by
      intro top
      rw [if_pos ⟨empty, top⟩] at low
      cases low
    rw [if_neg (fun wrong => grown wrong.2), Option.some.injEq] at low
    subst low
    have childNonzero := childLinked.root_ne_zero empty
    have oneChild : ¬ (store.left pointer = 0 ∧ store.right pointer = 0) ∧
        ¬ (store.left pointer ≠ 0 ∧ store.right pointer ≠ 0) ∧
        (if store.left pointer ≠ 0 then store.left pointer else store.right pointer) =
          rootOf child := by
      rw [leftIs, rightIs]
      rcases single with ⟨isNil, same⟩ | ⟨isNil, same⟩
      · subst same
        simp [isNil, childNonzero]
      · subst same
        simp [isNil, childNonzero]
    cases frames with
    | nil => exact absurd rfl grown
    | cons frame frames =>
      have adoptedSame := store.setParent_sameOutside (rootOf child) frame.above
      have childAt := childInside.subset (rootOf_mem empty)
      have notChild : pointer ≠ rootOf child := by
        intro same
        have order := (nodup_append.mp separate).1
        rcases single with ⟨_, is⟩ | ⟨_, is⟩
        · have member := rootOf_mem empty
          rw [← same, is] at member
          exact (nodup_cons.mp (nodup_append.mp order).2.1).1 member
        · have member := rootOf_mem empty
          rw [← same, is] at member
          exact (nodup_append.mp order).2.2 pointer member pointer (by simp) rfl
      have apart : ∀ other ∈ surroundings (frame :: frames), other ∉ [rootOf child] :=
        apart_singleton (fun member => (nodup_append.mp separate).2.2 _ childAt _ member rfl)
      have adopted : (store.setParent (rootOf child) frame.above).Linked frame.above child := by
        refine childLinked.reparent ?_ ?_ (fun _ _ => rfl) (fun _ _ => rfl)
          (fun _ => update_self _ _ _)
        · exact childInside.nodup (nodup_append.mp separate).1
        · exact fun other _ notRoot => update_of_ne notRoot _ _
      have keeps : ∀ shape, store.Settled goal shape →
          (store.setParent (rootOf child) frame.above).Settled goal shape := fun _ settled =>
        settled.transport (fun _ _ => rfl) (fun _ _ => rfl) (fun _ _ => rfl)
      obtain ⟨after, run, afterLinked, settled, same⟩ :=
        hang_and_bubble (Nat.lt_of_succ_lt enough) (aboveLinked.outside adoptedSame apart) adopted
          childNodup
          (fun other member => (ready other (contained other member)).outside adoptedSame)
          (keeps _ childSettled) (fun other member => keeps _ (around.siblings other member))
      refine ⟨after, ?_, afterLinked, settled, (adoptedSame.mono ?_).trans (same.mono contained)⟩
      · have upNow : (store.setParent (rootOf child) frame.above).parent pointer = frame.above :=
          (update_of_ne notChild _ _).trans parentIs
        rw [avlRemove, if_neg rooted, if_neg oneChild.1, if_neg oneChild.2.1]
        simp only [oneChild.2.2, parentIs, parentOf, if_neg aboveLinked.1.1]
        rw [replaceChild_hang (rootOf child) upNow hooked]
        exact run
      · intro other member
        rw [mem_singleton.mp member, perm.mem_iff]
        exact mem_append_left _ childAt

theorem takePlace_eq (store : AvlStore Data Summary) (victim pointer : Nat)
    (notLeft : pointer ≠ store.left pointer) (notRight : pointer ≠ store.right pointer) :
    store.takePlace victim pointer =
      { store with
        left := Function.update store.left victim (store.left pointer)
        right := Function.update store.right victim (store.right pointer)
        parent := fun other =>
          if other = victim then store.parent pointer
          else if other = store.left pointer ∨ other = store.right pointer then victim
          else store.parent other } := by
  unfold takePlace setParent setLeft setRight
  simp only [update_self]
  congr 1
  funext other
  simp only [update_apply]
  grind

/-- The victim stands in the place of the node, with its subtrees; the link of
the node above still leads to the node. -/
theorem takePlace_linked
    (linked : store.Linked 0 (plug frames (node pointer left right)))
    (nodup : (plug frames (node pointer left right)).inorder.Nodup)
    (nonzero : victim ≠ 0) (fresh : victim ∉ (plug frames (node pointer left right)).inorder)
    (leftPresent : left ≠ nil) (rightPresent : right ≠ nil) :
    (store.takePlace victim pointer).Linked (parentOf frames) (node victim left right) ∧
      (store.takePlace victim pointer).LinkedAbove frames ∧
      SameOutside [victim, rootOf left, rootOf right] store (store.takePlace victim pointer) := by
  obtain ⟨aboveLinked, childIs, here⟩ := (linked_plug _ _).mp linked
  obtain ⟨_, parentIs, leftIs, rightIs, leftLinked, rightLinked⟩ := id here
  have perm := plug_perm frames (node pointer left right)
  have separate := perm.nodup_iff.mp nodup
  simp only [inorder_node, append_assoc, cons_append, nodup_append,
    nodup_cons, mem_append, mem_cons, not_or] at separate
  simp only [perm.mem_iff, inorder_node, append_assoc, cons_append, mem_append,
    mem_cons, not_or] at fresh
  have leftRoot := rootOf_mem leftPresent
  have rightRoot := rootOf_mem rightPresent
  have placed := takePlace_eq store victim pointer (by grind) (by grind)
  rw [leftIs, rightIs, parentIs] at placed
  have touched : SameOutside [victim, rootOf left, rootOf right] store
      (store.takePlace victim pointer) := by
    rw [placed]
    constructor
    all_goals grind
  have apart : ∀ other ∈ surroundings frames, other ∉ [victim, rootOf left, rootOf right] := by
    grind
  refine ⟨?_, aboveLinked.outside touched apart, touched⟩
  rw [placed]
  refine ⟨nonzero, if_pos rfl, update_self _ _ _, update_self _ _ _,
    leftLinked.reparent ?_ ?_ ?_ ?_ ?_, rightLinked.reparent ?_ ?_ ?_ ?_ ?_⟩
  all_goals grind

theorem takePlace_settled
    (victim pointer : Nat) (settled : store.Settled goal shape) :
    (store.takePlace victim pointer).Settled goal shape :=
  settled.transport (fun _ _ => rfl) (fun _ _ => rfl) (fun _ _ => rfl)

section

variable (linked : store.Linked 0 (plug frames (node pointer left right)))
  (nodup : (plug frames (node pointer left right)).inorder.Nodup)

include linked nodup

/-- A root or a right child passes the test of the loop. -/
theorem takePlace_prepared
    (nonzero : victim ≠ 0) (fresh : victim ∉ (plug frames (node pointer left right)).inorder)
    (settled : store.Settled goal (plug frames (node pointer left right)))
    (leftPresent : left ≠ nil) (rightPresent : right ≠ nil)
    (place : isLeftChild frames = false) :
    Prepared goal (store.takePlace victim pointer) frames (node victim left right) ∧
      SameOutside (victim :: (plug frames (node pointer left right)).inorder) store
        (store.takePlace victim pointer) := by
  obtain ⟨placed, above, touched⟩ :=
    takePlace_linked linked nodup nonzero fresh leftPresent rightPresent
  have around := settled.around
  have perm := plug_perm frames (node pointer left right)
  have inLeft := rootOf_mem leftPresent
  have inRight := rootOf_mem rightPresent
  refine ⟨⟨placed, above, ?_,
    ⟨takePlace_settled _ _ around.left, takePlace_settled _ _ around.right⟩,
    fun frame member => takePlace_settled _ _ (around.siblings frame member)⟩, touched.mono ?_⟩
  · cases frames with
    | nil => trivial
    | cons frame frames =>
      cases frame with
      | left above sibling => cases place
      | right above sibling =>
        obtain ⟨⟨_, _, _, siblingIs⟩, _⟩ := above
        have siblingRoot := @rootOf_mem_of_ne_zero sibling
        simp only [perm.mem_iff, surroundings, flatMap_cons, Frame.above, Frame.sibling,
          mem_append, mem_cons, not_or] at fresh siblingIs
        simp only [Hooked, rootOf_node]
        grind
  · intro other member
    simp only [mem_cons, perm.mem_iff, inorder_node, mem_append] at member ⊢
    grind

/-- Type 3 of `avl_remove`, first half: the in-order successor is taken out. -/
theorem avlRemove_successor {inner : List (Frame Nat)} {below lowered : BinaryTree Nat}
    (ready : ∀ other ∈ (plug frames (node pointer left right)).inorder,
      store.Ready callbacks goal other)
    (rooted : root ≠ 0)
    (enough : (plug frames (node pointer left right)).inorder.length < fuel)
    (around : SettledAround goal store frames left right) (leftPresent : left ≠ nil)
    (first : right.inorder.head? = some victim)
    (victimAt : focus victim right = some (inner, nil, below))
    (low : detachLow (inner ++ .right pointer left :: frames) below = some lowered) :
    ∃ removed, avlRemove callbacks (fuel + 2) root pointer store =
        (if removed.left pointer = 0 ∨ removed.right pointer = 0 then .error .nullDereference
          else avlBubbleUpdateAndBalance callbacks (fuel + 1) victim
            (removed.takePlace victim pointer)) ∧
      removed.Linked 0 lowered ∧ removed.Settled goal lowered ∧
      SameOutside (plug frames (node pointer left right)).inorder store removed ∧
      victim ∈ (plug frames (node pointer left right)).inorder ∧ victim ∉ lowered.inorder ∧
      lowered.inorder.Sublist (plug frames (node pointer left right)).inorder := by
  have rightIs := focus_plug victimAt
  have whole : plug frames (node pointer left right) =
      plug (inner ++ .right pointer left :: frames) (node victim nil below) := by
    rw [plug_append, ← rightIs]
    rfl
  have rightPresent : right ≠ nil := by
    intro empty
    rw [empty] at first
    cases first
  obtain ⟨_, _, here⟩ := (linked_plug _ _).mp linked
  obtain ⟨_, _, leftLink, rightLink, leftLinked, rightLinked⟩ := id here
  have innerAround := Settled.around inner (rightIs ▸ around.right)
  have wholeAround : SettledAround goal store (inner ++ .right pointer left :: frames) nil below := by
    refine ⟨trivial, innerAround.right, ?_⟩
    intro frame member
    rcases mem_append.mp member with inside | outside
    · exact innerAround.siblings frame inside
    rcases mem_cons.mp outside with same | outer
    · rw [same]
      exact around.left
    · exact around.siblings frame outer
  have depth := height_le_plug (inner ++ .right pointer left :: frames) (node victim nil below)
  have short := height_le_length (plug frames (node pointer left right))
  rw [← whole] at depth
  have successor : avlGetSuccessor (fuel + 1) pointer store = .ok victim := by
    have order : (plug frames (node pointer left right)).inorder =
        (before frames ++ left.inorder) ++ pointer :: (right.inorder ++ after frames) := by
      rw [plug_inorder]
      simp
    rw [avlGetSuccessor_next linked nodup order (by omega), List.head?_append, first]
    rfl
  obtain ⟨removed, removeRun, removedLinked, removedSettled, removedSame⟩ :=
    avlRemove_low (whole ▸ linked) (whole ▸ nodup) (whole ▸ ready) rooted
      (show (inner ++ .right pointer left :: frames).length < fuel by omega)
      (Or.inl ⟨rfl, rfl⟩) wholeAround low
  rw [← whole] at removedSame
  have wholeOrder : (plug frames (node pointer left right)).inorder =
      before (inner ++ .right pointer left :: frames) ++ victim ::
        (below.inorder ++ after (inner ++ .right pointer left :: frames)) := by
    rw [whole, plug_inorder]
    simp
  have loweredOrder := detachLow_inorder low
  refine ⟨removed, ?_, removedLinked, removedSettled, removedSame, ?_, ?_, ?_⟩
  · have both : store.left pointer ≠ 0 ∧ store.right pointer ≠ 0 := by
      rw [leftLink, rightLink]
      exact ⟨leftLinked.root_ne_zero leftPresent, rightLinked.root_ne_zero rightPresent⟩
    rw [avlRemove, if_neg rooted, if_neg (fun leaf => both.1 leaf.1), if_pos both, successor,
      ok_bind, removeRun, ok_bind]
  · rw [wholeOrder]
    simp
  · have apart := nodup
    rw [wholeOrder] at apart
    rw [loweredOrder, append_assoc]
    exact (nodup_cons.mp (nodup_middle.mp apart)).1
  · rw [loweredOrder, wholeOrder]
    simp

/-- Type 3 of `avl_remove`, second half: the successor takes the node's place. -/
theorem avlRemove_pair {inner : List (Frame Nat)} {below lowered : BinaryTree Nat}
    (ready : ∀ other ∈ (plug frames (node pointer left right)).inorder,
      store.Ready callbacks goal other)
    (rooted : root ≠ 0)
    (enough : (plug frames (node pointer left right)).inorder.length < fuel)
    (around : SettledAround goal store frames left right) (leftPresent : left ≠ nil)
    (first : right.inorder.head? = some victim)
    (victimAt : focus victim right = some (inner, nil, below))
    (low : detachLow (inner ++ .right pointer left :: frames) below = some lowered)
    (replaced : replaceBy victim pointer lowered = some result) :
    ∃ after, avlRemove callbacks (fuel + 2) root pointer store = .ok (rootOf result, after) ∧
      after.Linked 0 result ∧ after.Settled goal result ∧
      SameOutside (plug frames (node pointer left right)).inorder store after := by
  obtain ⟨removed, removeRun, removedLinked, removedSettled, removedSame, victimInside, fresh,
    loweredInside⟩ := avlRemove_successor linked nodup ready rooted enough around leftPresent first
      victimAt low
  cases pointerAt : focus pointer lowered with
  | none =>
    rw [replaceBy, pointerAt] at replaced
    cases replaced
  | some found =>
    obtain ⟨outer, lowLeft, lowRight⟩ := found
    rw [replaceBy, pointerAt] at replaced
    simp only at replaced
    split at replaced
    · cases replaced
    rename_i fits
    simp only [not_or, Bool.not_eq_true] at fits
    cases replaced
    have loweredIs := focus_plug pointerAt
    rw [loweredIs] at removedLinked removedSettled fresh
    have loweredNodup := loweredInside.nodup nodup
    rw [loweredIs] at loweredNodup
    obtain ⟨prepared, placedSame⟩ := takePlace_prepared removedLinked loweredNodup
      (linked.ne_zero victimInside) fresh removedSettled fits.1 fits.2.1 fits.2.2
    have lowPerm := plug_perm outer (node pointer lowLeft lowRight)
    have newPerm := plug_perm outer (node victim lowLeft lowRight)
    have members : ∀ other ∈ (plug outer (node victim lowLeft lowRight)).inorder,
        other ∈ victim :: (plug outer (node pointer lowLeft lowRight)).inorder := by
      intro other
      simp only [newPerm.mem_iff, mem_cons, lowPerm.mem_iff, inorder_node, mem_append]
      tauto
    have inWhole : ∀ other ∈ victim :: (plug outer (node pointer lowLeft lowRight)).inorder,
        other ∈ (plug frames (node pointer left right)).inorder := by
      intro other member
      rcases mem_cons.mp member with same | inside
      · rw [same]
        exact victimInside
      · rw [← loweredIs] at inside
        exact loweredInside.subset inside
    have newNodup : (plug outer (node victim lowLeft lowRight)).inorder.Nodup := by
      rw [newPerm.nodup_iff]
      rw [lowPerm.nodup_iff] at loweredNodup
      rw [lowPerm.mem_iff] at fresh
      simp only [inorder_node, nodup_append, nodup_cons, mem_append,
        mem_cons] at loweredNodup fresh ⊢
      grind
    have lowDepth := height_le_plug outer (node pointer lowLeft lowRight)
    have lowShort := height_le_length lowered
    have lowLength := loweredInside.length_le
    rw [← loweredIs] at lowDepth
    have bothSame := removedSame.trans (placedSame.mono inWhole)
    obtain ⟨after, run, afterLinked, afterSettled, afterSame⟩ :=
      avlBubble_bubbles outer (node victim lowLeft lowRight) (removed.takePlace victim pointer)
        (fuel + 1) (by simp) (by omega) prepared newNodup
        (fun other member => (ready other (inWhole other (members other member))).outside bothSame)
    refine ⟨after, ?_, afterLinked, afterSettled,
      bothSame.trans (afterSame.mono (fun other member => inWhole other (members other member)))⟩
    obtain ⟨_, _, pointerLinked⟩ := (linked_plug _ _).mp removedLinked
    obtain ⟨_, _, lowLeftIs, lowRightIs, lowLeftLinked, lowRightLinked⟩ := pointerLinked
    have still : ¬ (removed.left pointer = 0 ∨ removed.right pointer = 0) := by
      rw [lowLeftIs, lowRightIs, not_or]
      exact ⟨lowLeftLinked.root_ne_zero fits.1, lowRightLinked.root_ne_zero fits.2.1⟩
    rw [removeRun, if_neg still]
    exact run

end

theorem avlRemove_detaches
    (linked : store.Linked 0 shape) (nodup : shape.inorder.Nodup)
    (ready : ∀ other ∈ shape.inorder, store.Ready callbacks goal other)
    (enough : shape.inorder.length + 2 < fuel)
    (found : focus pointer shape = some (frames, left, right))
    (around : SettledAround goal store frames left right)
    (detached : detach pointer shape = some result) :
    ∃ after, avlRemove callbacks fuel (rootOf shape) pointer store = .ok (rootOf result, after) ∧
      after.Linked 0 result ∧ after.Settled goal result ∧
      SameOutside shape.inorder store after := by
  have whole := focus_plug found
  have present : shape ≠ nil := by
    intro empty
    rw [empty] at found
    cases found
  have rooted := linked.root_ne_zero present
  have depth := height_le_plug frames (node pointer left right)
  have short := height_le_length shape
  obtain ⟨fuel, rfl⟩ : ∃ rest, fuel = rest + 2 := ⟨fuel - 2, by omega⟩
  rw [← whole] at depth
  unfold detach at detached
  rw [found] at detached
  simp only at detached
  rw [whole] at linked nodup ready ⊢ rooted
  split at detached
  · rename_i leftNil
    exact avlRemove_low linked nodup ready rooted (by omega) (Or.inl ⟨leftNil, rfl⟩) around detached
  split at detached
  · rename_i rightNil
    exact avlRemove_low linked nodup ready rooted (by omega) (Or.inr ⟨rightNil, rfl⟩) around detached
  rename_i leftPresent rightPresent
  have rightNodup : right.inorder.Nodup := by
    have order := (nodup_append.mp ((plug_perm _ _).nodup_iff.mp nodup)).1
    exact (nodup_cons.mp (nodup_append.mp order).2.1).2
  obtain ⟨victim, inner, below, headIs, victimAt, _, _⟩ := focus_first rightPresent rightNodup
  simp only [headIs, Option.bind_some, victimAt, Option.getD_some] at detached
  obtain ⟨lowered, low, replaced⟩ := Option.bind_eq_some_iff.mp detached
  exact avlRemove_pair linked nodup ready rooted (by rw [← whole]; omega) around leftPresent
    headIs victimAt low replaced

end AvlStore

end Fesos
