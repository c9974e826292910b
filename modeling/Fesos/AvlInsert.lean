/-
Insertion and lookup on the represented tree.

`avlInsert` acts as `insertTree`: the new node becomes a leaf at the place the
comparisons lead to, and every node on the way back is rebalanced.  Only the
subtrees off that way have to be settled before the call, so a caller may change
the data of a node on it first.
-/

import Fesos.AvlBalance

set_option autoImplicit false

namespace Fesos

open BinaryTree
open List hiding nil

def insertTree (goesLeft : Nat → Bool) (new : Nat) : BinaryTree Nat → BinaryTree Nat
  | nil => node new nil nil
  | node pointer left right =>
    if goesLeft pointer then rebalance (node pointer (insertTree goesLeft new left) right)
    else rebalance (node pointer left (insertTree goesLeft new right))

section

variable (goesLeft : Nat → Bool) (new : Nat) (tree : BinaryTree Nat)

include goesLeft new tree

theorem insertTree_perm :
    (insertTree goesLeft new tree).inorder.Perm (new :: tree.inorder) := by
  induction tree with
  | nil => exact List.Perm.refl _
  | node pointer left right leftIh rightIh =>
    simp only [insertTree]
    split
    · rw [rebalance_inorder, inorder_node, inorder_node]
      exact leftIh.append_right _
    rw [rebalance_inorder, inorder_node, inorder_node]
    have inner : (pointer :: (insertTree goesLeft new right).inorder).Perm
        (new :: pointer :: right.inorder) :=
      (rightIh.cons pointer).trans (List.Perm.swap _ _ _)
    exact (inner.append_left _).trans perm_middle

theorem insertTree_splits :
    ∃ front back, tree.inorder = front ++ back ∧
      (insertTree goesLeft new tree).inorder = front ++ new :: back := by
  induction tree with
  | nil => exact ⟨[], [], rfl, rfl⟩
  | node pointer left right leftIh rightIh =>
    simp only [insertTree]
    split
    · obtain ⟨front, back, order, inserted⟩ := leftIh
      refine ⟨front, back ++ pointer :: right.inorder, ?_, ?_⟩
      · rw [inorder_node, order, append_assoc]
      · rw [rebalance_inorder, inorder_node, inserted, append_assoc, cons_append]
    obtain ⟨front, back, order, inserted⟩ := rightIh
    refine ⟨left.inorder ++ pointer :: front, back, ?_, ?_⟩
    · rw [inorder_node, order, append_assoc, cons_append]
    · rw [rebalance_inorder, inorder_node, inserted, append_assoc, cons_append]

/-- The new node lands between the nodes that compare as not greater and those
that compare as greater. -/
theorem insertTree_inorder
    {front back : List Nat} (order : tree.inorder = front ++ back)
    (low : ∀ pointer ∈ front, goesLeft pointer = false)
    (high : ∀ pointer ∈ back, goesLeft pointer = true) :
    (insertTree goesLeft new tree).inorder = front ++ new :: back := by
  induction tree generalizing front back with
  | nil =>
    obtain ⟨frontNil, backNil⟩ := append_eq_nil_iff.mp order.symm
    rw [frontNil, backNil]
    rfl
  | node pointer left right leftIh rightIh =>
    rw [inorder_node] at order
    simp only [insertTree]
    cases side : goesLeft pointer with
    | true =>
      -- the node belongs to the back, so the front lies in its left subtree
      have split : ∃ middle, left.inorder = front ++ middle ∧
          back = middle ++ pointer :: right.inorder := by
        rcases append_eq_append_iff.mp order with
          ⟨middle, frontEq, rest⟩ | ⟨middle, leftEq, rest⟩
        · cases middle with
          | nil => exact ⟨[], by simpa using frontEq.symm, by simpa using rest.symm⟩
          | cons first middle =>
            simp only [cons_append, List.cons.injEq] at rest
            have wrong := low pointer (by rw [frontEq, rest.1]; simp)
            rw [side] at wrong
            cases wrong
        · exact ⟨middle, leftEq, rest⟩
      obtain ⟨middle, leftEq, backEq⟩ := split
      rw [if_pos rfl, rebalance_inorder, inorder_node,
        leftIh leftEq low (fun other member => high other (by rw [backEq]; simp [member])),
        backEq]
      simp
    | false =>
      have split : ∃ middle, front = left.inorder ++ pointer :: middle ∧
          right.inorder = middle ++ back := by
        rcases append_eq_append_iff.mp order with
          ⟨middle, frontEq, rest⟩ | ⟨middle, leftEq, rest⟩
        · cases middle with
          | nil =>
            have wrong := high pointer (by simp only [nil_append] at rest; simp [← rest])
            rw [side] at wrong
            cases wrong
          | cons first middle =>
            simp only [cons_append, List.cons.injEq] at rest
            exact ⟨middle, by rw [frontEq, rest.1], rest.2⟩
        · have wrong := high pointer (by rw [rest]; simp)
          rw [side] at wrong
          cases wrong
      obtain ⟨middle, frontEq, rightEq⟩ := split
      rw [if_neg (by simp), rebalance_inorder, inorder_node,
        rightIh rightEq (fun other member => low other (by rw [frontEq]; simp [member])) high,
        frontEq]
      simp

end

namespace AvlStore

variable {Data Summary : Type} {callbacks : AvlCallbacks Data Summary}
  {goal : SummaryGoal Data Summary}

def SettledOff (goal : Data → Option Summary → Option Summary → Summary → Prop)
    (goesLeft : Nat → Bool) (store : AvlStore Data Summary) : BinaryTree Nat → Prop
  | nil => True
  | node pointer left right =>
    if goesLeft pointer then SettledOff goal goesLeft store left ∧ store.Settled goal right
    else store.Settled goal left ∧ SettledOff goal goesLeft store right

variable {store : AvlStore Data Summary} {tree : BinaryTree Nat}

theorem Settled.off
    (settled : store.Settled goal tree) (goesLeft : Nat → Bool) :
    store.SettledOff goal goesLeft tree := by
  induction tree with
  | nil => trivial
  | node pointer left right leftIh rightIh =>
    obtain ⟨_, _, leftSettled, rightSettled⟩ := settled
    simp only [SettledOff]
    split
    · exact ⟨leftIh leftSettled, rightSettled⟩
    · exact ⟨leftSettled, rightIh rightSettled⟩

/-- A node whose data was changed lies on the way when the new node goes right
behind it. -/
theorem settledOff_at {goesLeft : Nat → Bool} {before after : AvlStore Data Summary} {changed : Nat} {front back : List Nat}
    (settled : before.Settled goal tree) (nodup : tree.inorder.Nodup)
    (order : tree.inorder = front ++ changed :: back)
    (low : ∀ pointer ∈ front, goesLeft pointer = false) (here : goesLeft changed = false)
    (high : ∀ pointer ∈ back, goesLeft pointer = true)
    (depth : ∀ pointer ∈ tree.inorder, pointer ≠ changed →
      after.subtreeMaxDepth pointer = before.subtreeMaxDepth pointer)
    (summary : ∀ pointer ∈ tree.inorder, pointer ≠ changed →
      after.summary pointer = before.summary pointer)
    (data : ∀ pointer ∈ tree.inorder, pointer ≠ changed →
      after.data pointer = before.data pointer) :
    after.SettledOff goal goesLeft tree := by
  induction tree generalizing front back with
  | nil => trivial
  | node pointer left right leftIh rightIh =>
    obtain ⟨_, _, leftSettled, rightSettled⟩ := settled
    obtain ⟨leftNodup, restNodup, crossing⟩ := nodup_append.mp nodup
    obtain ⟨notRight, rightNodup⟩ := nodup_cons.mp restNodup
    have inLeft : ∀ other ∈ left.inorder, other ∈ (node pointer left right).inorder :=
      fun other member => by simp [member]
    have inRight : ∀ other ∈ right.inorder, other ∈ (node pointer left right).inorder :=
      fun other member => by simp [member]
    have leftKept : changed ∉ left.inorder → after.Settled goal left := fun absent =>
      leftSettled.transport
        (fun other member => depth other (inLeft other member) (fun same => absent (same ▸ member)))
        (fun other member => summary other (inLeft other member)
          (fun same => absent (same ▸ member)))
        (fun other member => data other (inLeft other member) (fun same => absent (same ▸ member)))
    have rightKept : changed ∉ right.inorder → after.Settled goal right := fun absent =>
      rightSettled.transport
        (fun other member => depth other (inRight other member)
          (fun same => absent (same ▸ member)))
        (fun other member => summary other (inRight other member)
          (fun same => absent (same ▸ member)))
        (fun other member => data other (inRight other member)
          (fun same => absent (same ▸ member)))
    rw [inorder_node] at order
    simp only [SettledOff]
    rcases append_eq_append_iff.mp order with
      ⟨middle, frontEq, rest⟩ | ⟨middle, leftEq, rest⟩
    · cases middle with
      | nil =>
        simp only [nil_append, List.cons.injEq] at rest
        rw [rest.1, here, if_neg (by simp)]
        rw [rest.1] at notRight
        exact ⟨leftKept (fun member => crossing changed member pointer
          mem_cons_self rest.1.symm), (rightKept notRight).off goesLeft⟩
      | cons first middle =>
        simp only [cons_append, List.cons.injEq] at rest
        have side := low pointer (by rw [frontEq, rest.1]; simp)
        have member : changed ∈ right.inorder := by
          rw [rest.2]
          simp
        rw [side, if_neg (by simp)]
        refine ⟨leftKept (fun inside => crossing changed inside changed
            (mem_cons_of_mem _ member) rfl),
          rightIh rightSettled rightNodup rest.2
            (fun other inFront => low other (by rw [frontEq]; simp [inFront])) high ?_ ?_ ?_⟩
        · exact fun other inside => depth other (inRight other inside)
        · exact fun other inside => summary other (inRight other inside)
        · exact fun other inside => data other (inRight other inside)
    · cases middle with
      | nil =>
        simp only [nil_append, List.cons.injEq] at rest
        rw [← rest.1, here, if_neg (by simp)]
        rw [← rest.1] at notRight
        exact ⟨leftKept (fun member => crossing changed member pointer
          mem_cons_self rest.1), (rightKept notRight).off goesLeft⟩
      | cons first middle =>
        simp only [cons_append, List.cons.injEq] at rest
        have side := high pointer (by rw [rest.2]; simp)
        have leftOrder : left.inorder = front ++ changed :: middle := by rw [leftEq, rest.1]
        have member : changed ∈ left.inorder := by
          rw [leftOrder]
          simp
        rw [side, if_pos rfl]
        refine ⟨leftIh leftSettled leftNodup leftOrder low
            (fun other inBack => high other (by rw [rest.2]; simp [inBack])) ?_ ?_ ?_,
          rightKept (fun inside => crossing changed member changed
            (mem_cons_of_mem _ inside) rfl)⟩
        · exact fun other inside => depth other (inLeft other inside)
        · exact fun other inside => summary other (inLeft other inside)
        · exact fun other inside => data other (inLeft other inside)

theorem SettledOff.setParent {goesLeft : Nat → Bool} (settled : store.SettledOff goal goesLeft tree) (new value : Nat) :
    (store.setParent new value).SettledOff goal goesLeft tree := by
  have kept : ∀ other : BinaryTree Nat, store.Settled goal other →
      (store.setParent new value).Settled goal other := fun _ before =>
    before.transport (fun _ _ => rfl) (fun _ _ => rfl) (fun _ _ => rfl)
  induction tree with
  | nil => trivial
  | node pointer left right leftIh rightIh =>
    simp only [SettledOff] at settled ⊢
    split
    · rename_i side
      rw [if_pos side] at settled
      exact ⟨leftIh settled.1, kept _ settled.2⟩
    · rename_i side
      rw [if_neg side] at settled
      exact ⟨kept _ settled.1, rightIh settled.2⟩

/-- A node as `avlInit` leaves it, with a summary that is right for a leaf. -/
structure FreshLeaf (goal : Data → Option Summary → Option Summary → Summary → Prop)
    (store : AvlStore Data Summary) (new : Nat) : Prop where
  nonzero : new ≠ 0
  left : store.left new = 0
  right : store.right new = 0
  depth : store.subtreeMaxDepth new = 0
  met : goal (store.data new) none none (store.summary new)

variable {new : Nat}

theorem FreshLeaf.linked
    (leaf : store.FreshLeaf goal new) : store.Linked (store.parent new) (node new nil nil) :=
  ⟨leaf.nonzero, rfl, leaf.left, leaf.right, trivial, trivial⟩

theorem FreshLeaf.settled
    (leaf : store.FreshLeaf goal new) : store.Settled goal (node new nil nil) :=
  ⟨leaf.depth, leaf.met, trivial, trivial⟩

theorem hang_setParent (store : AvlStore Data Summary) (frame : Frame Nat) (new : Nat)
    (hung : store.parent new = frame.above) :
    (store.hang frame new).setParent new frame.above = store.hang frame new := by
  rw [← hung]
  cases frame with
  | left pointer sibling => simp [hang, setLeft, setParent]
  | right pointer sibling => simp [hang, setRight, setParent]

/-- What one level of `avlInsertRec` does below a frame, given the deeper level. -/
theorem insert_below {frame : Frame Nat}
    {subtree : BinaryTree Nat} {comp : Data → Int} {goesLeft : Nat → Bool} {fuel above : Nat}
    (linked : store.Linked above subtree) (leaf : store.FreshLeaf goal new)
    (hung : store.parent new = frame.above)
    (deeper : subtree ≠ nil → ∃ after,
      avlInsertRec callbacks comp new fuel (rootOf subtree) store =
        .ok (rootOf (insertTree goesLeft new subtree), after) ∧
      after.Linked frame.above (insertTree goesLeft new subtree) ∧
      after.Settled goal (insertTree goesLeft new subtree) ∧
      SameOutside (new :: subtree.inorder) store after) :
    ∃ below, (if rootOf subtree ≠ 0 then do
          let inserted ← avlInsertRec callbacks comp new fuel (rootOf subtree) store
          pure (inserted.2.hang frame inserted.1)
        else pure ((store.hang frame new).setParent new frame.above)) =
        (.ok (below.hang frame (rootOf (insertTree goesLeft new subtree))) :
          Except Fault (AvlStore Data Summary)) ∧
      below.Linked frame.above (insertTree goesLeft new subtree) ∧
      below.Settled goal (insertTree goesLeft new subtree) ∧
      SameOutside (new :: subtree.inorder) store below := by
  by_cases present : subtree = nil
  · subst present
    refine ⟨store, ?_, ?_, leaf.settled, .refl _ _⟩
    · rw [if_neg (by simp), hang_setParent store frame new hung]
      rfl
    · rw [← hung]
      exact leaf.linked
  · obtain ⟨after, run, afterLinked, settled, same⟩ := deeper present
    refine ⟨after, ?_, afterLinked, settled, same⟩
    rw [if_pos (linked.root_ne_zero present), run]
    rfl

/-- One whole level of `avlInsertRec`: descend, hang the result, rebalance. -/
theorem insert_level (frame : Frame Nat)
    {subtree : BinaryTree Nat} {comp : Data → Int} {goesLeft : Nat → Bool} {fuel above : Nat}
    (linked : store.Linked above (frame.fill subtree))
    (nodup : (new :: (frame.fill subtree).inorder).Nodup) (leaf : store.FreshLeaf goal new)
    (hung : store.parent new = frame.above)
    (ready : ∀ pointer ∈ new :: (frame.fill subtree).inorder, store.Ready callbacks goal pointer)
    (siblingSettled : store.Settled goal frame.sibling)
    (deeper : subtree ≠ nil → ∃ after,
      avlInsertRec callbacks comp new fuel (rootOf subtree) store =
        .ok (rootOf (insertTree goesLeft new subtree), after) ∧
      after.Linked frame.above (insertTree goesLeft new subtree) ∧
      after.Settled goal (insertTree goesLeft new subtree) ∧
      SameOutside (new :: subtree.inorder) store after) :
    ∃ joined updated after, (if rootOf subtree ≠ 0 then do
          let inserted ← avlInsertRec callbacks comp new fuel (rootOf subtree) store
          pure (inserted.2.hang frame inserted.1)
        else pure ((store.hang frame new).setParent new frame.above)) =
        (.ok joined : Except Fault (AvlStore Data Summary)) ∧
      avlUpdate callbacks frame.above joined = .ok updated ∧
      avlCheckAndBalance callbacks frame.above updated =
        .ok (rootOf (rebalance (frame.fill (insertTree goesLeft new subtree))), after) ∧
      after.Linked above (rebalance (frame.fill (insertTree goesLeft new subtree))) ∧
      after.Settled goal (rebalance (frame.fill (insertTree goesLeft new subtree))) ∧
      SameOutside (new :: (frame.fill subtree).inorder) store after := by
  obtain ⟨framed, subtreeLinked⟩ := Linked.frame frame linked
  obtain ⟨newOutside, fillNodup⟩ := nodup_cons.mp nodup
  obtain ⟨⟨notSubtree, notSibling⟩, subtreeNodup, siblingNodup, crossing⟩ := fill_nodup.mp fillNodup
  simp only [mem_fill, not_or] at newOutside
  have inserted : ∀ pointer, pointer ∈ (insertTree goesLeft new subtree).inorder ↔
      pointer = new ∨ pointer ∈ subtree.inorder := fun pointer =>
    (insertTree_perm goesLeft new subtree).mem_iff.trans mem_cons
  have filled : ∀ pointer, pointer ∈ (frame.fill (insertTree goesLeft new subtree)).inorder →
      pointer ∈ new :: (frame.fill subtree).inorder := by
    intro pointer
    rw [mem_fill, inserted, mem_cons, mem_fill]
    tauto
  have levelNodup : (frame.fill (insertTree goesLeft new subtree)).inorder.Nodup := by
    refine fill_nodup.mpr ⟨⟨?_, notSibling⟩, ?_, siblingNodup, ?_⟩
    · rw [inserted, not_or]
      exact ⟨Ne.symm newOutside.1, notSubtree⟩
    · exact (insertTree_perm goesLeft new subtree).nodup_iff.mpr
        (nodup_cons.mpr ⟨newOutside.2.1, subtreeNodup⟩)
    · intro pointer member
      rcases (inserted pointer).mp member with same | old
      · rw [same]
        exact newOutside.2.2
      · exact crossing pointer old
  obtain ⟨below, run, belowLinked, belowSettled, same⟩ :=
    insert_below subtreeLinked leaf hung deeper
  have siblingApart : ∀ pointer ∈ frame.sibling.inorder, pointer ∉ new :: subtree.inorder := by
    intro pointer member inside
    rcases mem_cons.mp inside with isNew | inSubtree
    · rw [isNew] at member
      exact newOutside.2.2 member
    · exact crossing pointer inSubtree member
  have frameApart : frame.above ∉ new :: subtree.inorder := by
    rw [mem_cons, not_or]
    exact ⟨Ne.symm newOutside.1, notSubtree⟩
  obtain ⟨updated, after, updateRun, balanceRun, afterLinked, afterSettled, levelSame⟩ :=
    hang_and_balance (framed.outside same frameApart siblingApart) belowLinked levelNodup
      (fun pointer member => (ready pointer (filled pointer member)).outside same)
      belowSettled (siblingSettled.outside same siblingApart)
  refine ⟨_, updated, after, run, updateRun, balanceRun, afterLinked, afterSettled, ?_⟩
  refine (same.mono ?_).trans (levelSame.mono filled)
  intro pointer member
  rw [mem_cons] at member
  rw [mem_cons, mem_fill]
  tauto

theorem avlInsertRec_inserts (comp : Data → Int) (tree : BinaryTree Nat) :
    ∀ (store : AvlStore Data Summary) (above fuel : Nat), tree ≠ nil → tree.height ≤ fuel →
      store.Linked above tree → (new :: tree.inorder).Nodup → store.FreshLeaf goal new →
      (∀ pointer ∈ new :: tree.inorder, store.Ready callbacks goal pointer) →
      store.SettledOff goal (fun pointer => decide (comp (store.data pointer) > 0)) tree →
      ∃ after, avlInsertRec callbacks comp new fuel (rootOf tree) store =
          .ok (rootOf (insertTree (fun pointer => decide (comp (store.data pointer) > 0)) new tree),
            after) ∧
        after.Linked above
          (insertTree (fun pointer => decide (comp (store.data pointer) > 0)) new tree) ∧
        after.Settled goal
          (insertTree (fun pointer => decide (comp (store.data pointer) > 0)) new tree) ∧
        SameOutside (new :: tree.inorder) store after := by
  induction tree with
  | nil => exact fun _ _ _ present => absurd rfl present
  | node pointer left right leftIh rightIh =>
    intro store above fuel _ enough linked nodup leaf ready settled
    obtain ⟨fuel, rfl⟩ : ∃ rest, fuel = rest + 1 :=
      ⟨fuel - 1, by simp only [height] at enough; omega⟩
    have newOutside := (nodup_cons.mp nodup).1
    have startSame := store.setParent_sameOutside new pointer
    have apart : ∀ other ∈ (node pointer left right).inorder, other ∉ [new] :=
      apart_singleton newOutside
    have startLinked := linked.outside startSame apart
    have startLeaf : (store.setParent new pointer).FreshLeaf goal new :=
      ⟨leaf.nonzero, leaf.left, leaf.right, leaf.depth, leaf.met⟩
    have startReady := fun other member => (ready other member).outside startSame
    have hung : (store.setParent new pointer).parent new = pointer := Function.update_self _ _ _
    have startSettled : ∀ other : BinaryTree Nat, store.Settled goal other →
        (store.setParent new pointer).Settled goal other := fun _ before =>
      before.transport (fun _ _ => rfl) (fun _ _ => rfl) (fun _ _ => rfl)
    have sublist : ∀ other : List Nat, other.Sublist (node pointer left right).inorder →
        (new :: other).Nodup := fun other inside => nodup.sublist (inside.cons_cons new)
    have leftInside : left.inorder.Sublist (node pointer left right).inorder :=
      sublist_append_left _ _
    have rightInside : right.inorder.Sublist (node pointer left right).inorder :=
      (sublist_cons_self _ _).trans (sublist_append_right _ _)
    have finish : [new] ⊆ new :: (node pointer left right).inorder := by simp
    simp only [height] at enough
    simp only [SettledOff] at settled
    simp only [insertTree]
    by_cases side : comp (store.data pointer) > 0
    · simp only [side, decide_true, if_true] at settled ⊢
      obtain ⟨joined, updated, after, joinRun, updateRun, balanceRun, afterLinked, afterSettled,
          same⟩ :=
        insert_level (.left pointer right) startLinked nodup startLeaf hung startReady
          (startSettled _ settled.2)
          (fun present => leftIh (store.setParent new pointer) pointer fuel present (by omega)
            startLinked.2.2.2.2.1 (sublist _ leftInside) startLeaf
            (fun other member => startReady other
              (cons_subset_cons _ leftInside.subset member))
            (settled.1.setParent new pointer))
      refine ⟨after, ?_, afterLinked, afterSettled, (startSame.mono finish).trans same⟩
      have goes : comp ((store.setParent new pointer).data pointer) > 0 := side
      simp only [hang, Frame.above] at joinRun updateRun balanceRun
      simp only [avlInsertRec, rootOf_node, if_pos goes, startLinked.2.2.1, joinRun, ok_bind,
        updateRun, balanceRun]
      rfl
    · simp only [side, decide_false, Bool.false_eq_true, if_false] at settled ⊢
      obtain ⟨joined, updated, after, joinRun, updateRun, balanceRun, afterLinked, afterSettled,
          same⟩ :=
        insert_level (.right pointer left) startLinked nodup startLeaf hung startReady
          (startSettled _ settled.1)
          (fun present => rightIh (store.setParent new pointer) pointer fuel present (by omega)
            startLinked.2.2.2.2.2 (sublist _ rightInside) startLeaf
            (fun other member => startReady other
              (cons_subset_cons _ rightInside.subset member))
            (settled.2.setParent new pointer))
      refine ⟨after, ?_, afterLinked, afterSettled, (startSame.mono finish).trans same⟩
      have goes : ¬ comp ((store.setParent new pointer).data pointer) > 0 := side
      simp only [hang, Frame.above] at joinRun updateRun balanceRun
      simp only [avlInsertRec, rootOf_node, if_neg goes, startLinked.2.2.2.1, joinRun,
        ok_bind, updateRun, balanceRun]
      rfl

end AvlStore

end Fesos
