/-
What the links of an AVL store represent.

`Linked` ties the links below a node to a binary tree of addresses; `Settled`
says that the cached depths are exact and that every cached summary meets a goal
relating it to the node's data and its children's summaries.  An update settles
the node it is called on once its subtrees are settled.
-/

import Fesos.Avl
import Fesos.Library.BinaryTrees

set_option autoImplicit false

namespace Fesos

open BinaryTree Function
open List hiding nil

def rootOf : BinaryTree Nat → Nat
  | nil => 0
  | node pointer _ _ => pointer

@[simp] theorem rootOf_nil : rootOf nil = 0 := rfl

@[simp] theorem rootOf_node (pointer : Nat) (left right : BinaryTree Nat) :
    rootOf (node pointer left right) = pointer := rfl

/-- What a cached summary has to be, given the node's data and its children's summaries. -/
abbrev SummaryGoal (Data Summary : Type) : Type :=
  Data → Option Summary → Option Summary → Summary → Prop

theorem apart_singleton {pointer : Nat} {nodes : List Nat} (absent : pointer ∉ nodes) :
    ∀ other ∈ nodes, other ∉ [pointer] :=
  fun _ member inside => absent (mem_singleton.mp inside ▸ member)

namespace AvlStore

variable {Data Summary : Type}

/-- The links from a node downwards form the given tree; `above` is the parent
link of its root. -/
def Linked (store : AvlStore Data Summary) : Nat → BinaryTree Nat → Prop
  | _, nil => True
  | above, node pointer left right =>
    pointer ≠ 0 ∧ store.parent pointer = above ∧ store.left pointer = rootOf left ∧
      store.right pointer = rootOf right ∧ Linked store pointer left ∧
      Linked store pointer right

instance decidableLinked (store : AvlStore Data Summary) :
    ∀ (above : Nat) (shape : BinaryTree Nat), Decidable (store.Linked above shape)
  | _, nil => isTrue trivial
  | above, node pointer left right =>
    have := decidableLinked store pointer left
    have := decidableLinked store pointer right
    inferInstanceAs (Decidable (pointer ≠ 0 ∧ store.parent pointer = above ∧
      store.left pointer = rootOf left ∧ store.right pointer = rootOf right ∧
      Linked store pointer left ∧ Linked store pointer right))

section Agree

variable {Field : Type} {first second third : Nat → Field} {nodes more : List Nat}

theorem agree_trans (agree : ∀ other, other ∉ nodes → second other = first other)
    (again : ∀ other, other ∉ nodes → third other = second other) :
    ∀ other, other ∉ nodes → third other = first other :=
  fun other outside => (again other outside).trans (agree other outside)

theorem agree_mono (subset : nodes ⊆ more)
    (agree : ∀ other, other ∉ nodes → second other = first other) :
    ∀ other, other ∉ more → second other = first other :=
  fun other outside => agree other (fun member => outside (subset member))

end Agree

/-- `after` differs from `before` at most in the tree fields of the listed nodes. -/
structure SameOutside (nodes : List Nat) (before after : AvlStore Data Summary) : Prop where
  parent : ∀ other, other ∉ nodes → after.parent other = before.parent other
  left : ∀ other, other ∉ nodes → after.left other = before.left other
  right : ∀ other, other ∉ nodes → after.right other = before.right other
  depth : ∀ other, other ∉ nodes → after.subtreeMaxDepth other = before.subtreeMaxDepth other
  summary : ∀ other, other ∉ nodes → after.summary other = before.summary other
  data : after.data = before.data
  update : after.update = before.update

namespace SameOutside

variable {before middle after : AvlStore Data Summary} {nodes more : List Nat}

theorem refl (nodes : List Nat) (store : AvlStore Data Summary) : SameOutside nodes store store :=
  ⟨fun _ _ => rfl, fun _ _ => rfl, fun _ _ => rfl, fun _ _ => rfl, fun _ _ => rfl, rfl, rfl⟩

theorem trans (first : SameOutside nodes before middle)
    (second : SameOutside nodes middle after) : SameOutside nodes before after where
  parent := agree_trans first.parent second.parent
  left := agree_trans first.left second.left
  right := agree_trans first.right second.right
  depth := agree_trans first.depth second.depth
  summary := agree_trans first.summary second.summary
  data := second.data.trans first.data
  update := second.update.trans first.update

theorem mono (same : SameOutside nodes before after) (subset : nodes ⊆ more) :
    SameOutside more before after where
  parent := agree_mono subset same.parent
  left := agree_mono subset same.left
  right := agree_mono subset same.right
  depth := agree_mono subset same.depth
  summary := agree_mono subset same.summary
  data := same.data
  update := same.update

end SameOutside

variable {left right tree : BinaryTree Nat}

theorem rootOf_mem (present : tree ≠ nil) :
    rootOf tree ∈ tree.inorder := by
  cases tree with
  | nil => exact absurd rfl present
  | node pointer left right => simp

section Links

variable {before after : AvlStore Data Summary} {above newAbove : Nat} {tree : BinaryTree Nat}

section

variable (linked : before.Linked above tree)

include linked

theorem Linked.root_ne_zero (present : tree ≠ nil) :
    rootOf tree ≠ 0 := by
  cases tree with
  | nil => exact absurd rfl present
  | node pointer left right => exact linked.1

theorem Linked.root_eq_zero : rootOf tree = 0 ↔ tree = nil := by
  cases tree with
  | nil => simp
  | node pointer left right => simpa using linked.1

theorem Linked.ne_zero {pointer : Nat}
    (member : pointer ∈ tree.inorder) : pointer ≠ 0 := by
  induction tree generalizing above with
  | nil => cases member
  | node top left right leftIh rightIh =>
    rw [inorder_node, mem_append, mem_cons] at member
    rcases member with inLeft | same | inRight
    · exact leftIh linked.2.2.2.2.1 inLeft
    · rw [same]
      exact linked.1
    · exact rightIh linked.2.2.2.2.2 inRight

theorem Linked.left_mem {pointer : Nat}
    (member : pointer ∈ tree.inorder) :
    before.left pointer = 0 ∨ before.left pointer ∈ tree.inorder := by
  induction tree generalizing above with
  | nil => cases member
  | node top left right leftIh rightIh =>
    obtain ⟨_, _, leftIs, _, leftLinked, rightLinked⟩ := linked
    rw [inorder_node, mem_append, mem_cons] at member
    rw [inorder_node, mem_append, mem_cons]
    rcases member with inLeft | same | inRight
    · exact (leftIh leftLinked inLeft).imp_right Or.inl
    · rw [same, leftIs]
      by_cases empty : left = nil
      · exact Or.inl (by rw [empty]; rfl)
      · exact Or.inr (Or.inl (rootOf_mem empty))
    · exact (rightIh rightLinked inRight).imp_right (fun inside => Or.inr (Or.inr inside))

theorem Linked.transport
    (parent : ∀ pointer ∈ tree.inorder, after.parent pointer = before.parent pointer)
    (left : ∀ pointer ∈ tree.inorder, after.left pointer = before.left pointer)
    (right : ∀ pointer ∈ tree.inorder, after.right pointer = before.right pointer) :
    after.Linked above tree := by
  induction tree generalizing above with
  | nil => trivial
  | node top leftTree rightTree leftIh rightIh =>
    obtain ⟨nonzero, parentIs, leftIs, rightIs, leftLinked, rightLinked⟩ := linked
    refine ⟨nonzero, ?_, ?_, ?_, leftIh leftLinked ?_ ?_ ?_, rightIh rightLinked ?_ ?_ ?_⟩
    · rw [parent top (by simp), parentIs]
    · rw [left top (by simp), leftIs]
    · rw [right top (by simp), rightIs]
    all_goals
      intro pointer member
      first
        | exact parent pointer (by simp [member])
        | exact left pointer (by simp [member])
        | exact right pointer (by simp [member])

theorem Linked.outside {nodes : List Nat}
    (same : SameOutside nodes before after) (apart : ∀ pointer ∈ tree.inorder, pointer ∉ nodes) :
    after.Linked above tree :=
  linked.transport (fun pointer member => same.parent pointer (apart pointer member))
    (fun pointer member => same.left pointer (apart pointer member))
    (fun pointer member => same.right pointer (apart pointer member))

/-- A subtree whose root got a new parent. -/
theorem Linked.reparent (nodup : tree.inorder.Nodup)
    (parent : ∀ pointer ∈ tree.inorder, pointer ≠ rootOf tree →
      after.parent pointer = before.parent pointer)
    (left : ∀ pointer ∈ tree.inorder, after.left pointer = before.left pointer)
    (right : ∀ pointer ∈ tree.inorder, after.right pointer = before.right pointer)
    (hung : tree ≠ nil → after.parent (rootOf tree) = newAbove) :
    after.Linked newAbove tree := by
  cases tree with
  | nil => trivial
  | node top leftTree rightTree =>
    obtain ⟨nonzero, _, leftIs, rightIs, leftLinked, rightLinked⟩ := linked
    have apart := nodup_middle.mp nodup
    have notTop : ∀ pointer, pointer ∈ leftTree.inorder ++ rightTree.inorder → pointer ≠ top := by
      intro pointer member same
      rw [same] at member
      exact (nodup_cons.mp apart).1 member
    refine ⟨nonzero, hung (by simp), ?_, ?_, leftLinked.transport ?_ ?_ ?_,
      rightLinked.transport ?_ ?_ ?_⟩
    · rw [left top (by simp), leftIs]
    · rw [right top (by simp), rightIs]
    all_goals
      intro pointer member
      have different := notTop pointer (by simp [member])
      first
        | exact parent pointer (by simp [member]) different
        | exact left pointer (by simp [member])
        | exact right pointer (by simp [member])

end

end Links

/-! ### Cached depths and summaries -/

def top (store : AvlStore Data Summary) : BinaryTree Nat → Option Summary
  | nil => none
  | node pointer _ _ => some (store.summary pointer)

variable (callbacks : AvlCallbacks Data Summary)
  (goal : Data → Option Summary → Option Summary → Summary → Prop)

/-- Depths are exact and every summary meets the goal. -/
def Settled (store : AvlStore Data Summary) : BinaryTree Nat → Prop
  | nil => True
  | node pointer left right =>
    store.subtreeMaxDepth pointer = max left.height right.height ∧
      goal (store.data pointer) (store.top left) (store.top right) (store.summary pointer) ∧
      Settled store left ∧ Settled store right

/-- The node's callback establishes the goal; without one the goal asks nothing. -/
def Ready (store : AvlStore Data Summary) (pointer : Nat) : Prop :=
  (store.update pointer = 0 ∧ ∀ left right summary, goal (store.data pointer) left right summary) ∨
    (store.update pointer ≠ 0 ∧ ∃ callback, callbacks (store.update pointer) = some callback ∧
      ∀ left right, goal (store.data pointer) left right
        (callback (store.data pointer) left right))

variable {callbacks goal}

variable {after before store : AvlStore Data Summary} {above pointer : Nat}

theorem Ready.outside {nodes : List Nat}
    (ready : before.Ready callbacks goal pointer) (same : SameOutside nodes before after) :
    after.Ready callbacks goal pointer := by
  unfold Ready
  rw [same.data, same.update]
  exact ready

theorem top_transport
    (summary : ∀ pointer ∈ tree.inorder, after.summary pointer = before.summary pointer) :
    after.top tree = before.top tree := by
  cases tree with
  | nil => rfl
  | node pointer left right => exact congrArg some (summary pointer (by simp))

theorem Settled.transport
    (settled : before.Settled goal tree)
    (depth : ∀ pointer ∈ tree.inorder,
      after.subtreeMaxDepth pointer = before.subtreeMaxDepth pointer)
    (summary : ∀ pointer ∈ tree.inorder, after.summary pointer = before.summary pointer)
    (data : ∀ pointer ∈ tree.inorder, after.data pointer = before.data pointer) :
    after.Settled goal tree := by
  induction tree with
  | nil => trivial
  | node pointer left right leftIh rightIh =>
    obtain ⟨exactDepth, met, leftSettled, rightSettled⟩ := settled
    have inLeft : ∀ other ∈ left.inorder, other ∈ (node pointer left right).inorder :=
      fun other member => by simp [member]
    have inRight : ∀ other ∈ right.inorder, other ∈ (node pointer left right).inorder :=
      fun other member => by simp [member]
    refine ⟨?_, ?_, leftIh leftSettled ?_ ?_ ?_, rightIh rightSettled ?_ ?_ ?_⟩
    · rw [depth pointer (by simp), exactDepth]
    · rw [data pointer (by simp), summary pointer (by simp),
        top_transport (fun other member => summary other (inLeft other member)),
        top_transport (fun other member => summary other (inRight other member))]
      exact met
    · exact fun other member => depth other (inLeft other member)
    · exact fun other member => summary other (inLeft other member)
    · exact fun other member => data other (inLeft other member)
    · exact fun other member => depth other (inRight other member)
    · exact fun other member => summary other (inRight other member)
    · exact fun other member => data other (inRight other member)

theorem Settled.weaken {other : SummaryGoal Data Summary} (settled : store.Settled goal tree)
    (weaker : ∀ pointer ∈ tree.inorder, ∀ left right summary,
      goal (store.data pointer) left right summary → other (store.data pointer) left right summary) :
    store.Settled other tree := by
  induction tree with
  | nil => trivial
  | node pointer left right leftIh rightIh =>
    obtain ⟨exactDepth, met, leftSettled, rightSettled⟩ := settled
    exact ⟨exactDepth, weaker pointer (by simp) _ _ _ met,
      leftIh leftSettled (fun other member => weaker other (by simp [member])),
      rightIh rightSettled (fun other member => weaker other (by simp [member]))⟩

/-- Changing the data of one node keeps a tree settled if the node's summary
meets the goal for the new data. -/
theorem Settled.setData {changed : Nat}
    {data : Data} (settled : store.Settled goal tree)
    (met : ∀ frames left right, tree = plug frames (node changed left right) →
      goal data (store.top left) (store.top right) (store.summary changed)) :
    (store.setData changed data).Settled goal tree := by
  induction tree with
  | nil => trivial
  | node pointer left right leftIh rightIh =>
    obtain ⟨exactDepth, here, leftSettled, rightSettled⟩ := settled
    have tops : ∀ subtree, (store.setData changed data).top subtree = store.top subtree :=
      fun subtree => top_transport (fun _ _ => rfl)
    refine ⟨exactDepth, ?_, leftIh leftSettled ?_, rightIh rightSettled ?_⟩
    · rw [tops, tops]
      by_cases same : pointer = changed
      · subst same
        have now := met [] left right rfl
        unfold AvlStore.setData
        simp only [update_self]
        exact now
      · unfold AvlStore.setData
        simp only [update_of_ne same]
        exact here
    · intro frames below other is
      refine met (frames ++ [.left pointer right]) below other ?_
      rw [plug_append, ← is]
      rfl
    · intro frames below other is
      refine met (frames ++ [.right pointer left]) below other ?_
      rw [plug_append, ← is]
      rfl

theorem Settled.outside {nodes : List Nat} (settled : before.Settled goal tree)
    (same : SameOutside nodes before after) (apart : ∀ pointer ∈ tree.inorder, pointer ∉ nodes) :
    after.Settled goal tree :=
  settled.transport (fun pointer member => same.depth pointer (apart pointer member))
    (fun pointer member => same.summary pointer (apart pointer member))
    (fun pointer _ => congrFun same.data pointer)

/-- The depth term of a child, as both `avl_update` and the balance factor read it. -/
theorem Settled.child_height (linked : store.Linked above tree) (settled : store.Settled goal tree) :
    (if rootOf tree ≠ 0 then store.subtreeMaxDepth (rootOf tree) + 1 else 0) = tree.height := by
  cases tree with
  | nil => rfl
  | node pointer left right =>
    rw [rootOf_node, if_pos linked.1, settled.1]
    rfl

theorem childSummary_eq_top (linked : store.Linked above tree) :
    store.childSummary (rootOf tree) = store.top tree := by
  cases tree with
  | nil => rfl
  | node pointer left right => exact if_neg linked.1

theorem balanceFactor_eq (linked : store.Linked above (node pointer left right))
    (leftSettled : store.Settled goal left) (rightSettled : store.Settled goal right) :
    store.avlGetBalanceFactor pointer = (node pointer left right).balanceFactor := by
  obtain ⟨_, _, leftIs, rightIs, leftLinked, rightLinked⟩ := linked
  unfold avlGetBalanceFactor
  rw [leftIs, rightIs, leftSettled.child_height leftLinked, rightSettled.child_height rightLinked]
  rfl

def refreshed (store : AvlStore Data Summary) (pointer depth : Nat) (summary : Summary) :
    AvlStore Data Summary :=
  (store.setDepth pointer depth).setSummary pointer summary

theorem refreshed_sameOutside (store : AvlStore Data Summary) (pointer depth : Nat)
    (summary : Summary) : SameOutside [pointer] store (store.refreshed pointer depth summary) :=
  { SameOutside.refl [pointer] store with
    depth := fun _ outside => update_of_ne (by simpa using outside) _ _
    summary := fun _ outside => update_of_ne (by simpa using outside) _ _ }

def depthAt (store : AvlStore Data Summary) (pointer : Nat) : Nat :=
  (max (if store.left pointer ≠ 0 then (store.subtreeMaxDepth (store.left pointer) : Int) else -1)
    (if store.right pointer ≠ 0 then (store.subtreeMaxDepth (store.right pointer) : Int) else -1) +
      1).toNat

theorem avlUpdate_ready (nonzero : pointer ≠ 0)
    (ready : store.Ready callbacks goal pointer) :
    ∃ summary, avlUpdate callbacks pointer store =
        .ok (store.refreshed pointer (store.depthAt pointer) summary) ∧
      goal (store.data pointer) (store.childSummary (store.left pointer))
        (store.childSummary (store.right pointer)) summary := by
  unfold avlUpdate
  rw [if_neg nonzero]
  rcases ready with ⟨noCallback, free⟩ | ⟨callback, function, known, establishes⟩
  · refine ⟨store.summary pointer, ?_, free _ _ _⟩
    rw [if_pos noCallback]
    unfold refreshed setSummary setDepth
    simp only [update_eq_self]
    rfl
  · refine ⟨_, ?_, establishes _ _⟩
    rw [if_neg callback, known]
    rfl

theorem avlUpdate_refreshed (linked : store.Linked above (node pointer left right))
    (ready : store.Ready callbacks goal pointer)
    (leftSettled : store.Settled goal left) (rightSettled : store.Settled goal right) :
    ∃ summary, avlUpdate callbacks pointer store =
        .ok (store.refreshed pointer (max left.height right.height) summary) ∧
      goal (store.data pointer) (store.top left) (store.top right) summary := by
  obtain ⟨nonzero, _, leftIs, rightIs, leftLinked, rightLinked⟩ := linked
  have leftHeight := leftSettled.child_height leftLinked
  have rightHeight := rightSettled.child_height rightLinked
  have depth : store.depthAt pointer = max left.height right.height := by
    unfold depthAt
    rw [leftIs, rightIs]
    split_ifs at leftHeight rightHeight ⊢ <;> omega
  have updated := avlUpdate_ready nonzero ready
  rw [depth, leftIs, rightIs, childSummary_eq_top leftLinked,
    childSummary_eq_top rightLinked] at updated
  exact updated

theorem refreshed_settled (nodup : (node pointer left right).inorder.Nodup)
    (leftSettled : store.Settled goal left) (rightSettled : store.Settled goal right)
    {summary : Summary}
    (met : goal (store.data pointer) (store.top left) (store.top right) summary) :
    (store.refreshed pointer (max left.height right.height) summary).Settled goal
      (node pointer left right) := by
  have same := store.refreshed_sameOutside pointer (max left.height right.height) summary
  have apart := (nodup_cons.mp (nodup_middle.mp nodup)).1
  have leftApart : ∀ other ∈ left.inorder, other ∉ [pointer] :=
    apart_singleton (fun member => apart (mem_append_left _ member))
  have rightApart : ∀ other ∈ right.inorder, other ∉ [pointer] :=
    apart_singleton (fun member => apart (mem_append_right _ member))
  refine ⟨update_self _ _ _, ?_, leftSettled.outside same leftApart,
    rightSettled.outside same rightApart⟩
  rw [top_transport (fun other member => same.summary other (leftApart other member)),
    top_transport (fun other member => same.summary other (rightApart other member))]
  unfold refreshed setSummary
  simp only [update_self]
  exact met

def ChildrenSettled (goal : Data → Option Summary → Option Summary → Summary → Prop)
    (store : AvlStore Data Summary) : BinaryTree Nat → Prop
  | nil => True
  | node _ left right => store.Settled goal left ∧ store.Settled goal right

theorem Settled.children
    (settled : store.Settled goal tree) : store.ChildrenSettled goal tree := by
  cases tree with
  | nil => trivial
  | node pointer left right => exact settled.2.2

structure SameLinks (before after : AvlStore Data Summary) : Prop where
  parent : after.parent = before.parent
  left : after.left = before.left
  right : after.right = before.right

theorem SameLinks.trans {middle : AvlStore Data Summary}
    (first : SameLinks before middle) (second : SameLinks middle after) : SameLinks before after :=
  ⟨second.parent.trans first.parent, second.left.trans first.left, second.right.trans first.right⟩

theorem SameLinks.linked (same : SameLinks before after) (linked : before.Linked above tree) :
    after.Linked above tree :=
  linked.transport (fun _ _ => congrFun same.parent _) (fun _ _ => congrFun same.left _)
    (fun _ _ => congrFun same.right _)

/-- `avlUpdate` at the root of a tree settles the tree. -/
theorem avlUpdate_settles
    (linked : store.Linked above tree) (nodup : tree.inorder.Nodup)
    (ready : ∀ pointer ∈ tree.inorder, store.Ready callbacks goal pointer)
    (settled : store.ChildrenSettled goal tree) :
    ∃ after, avlUpdate callbacks (rootOf tree) store = .ok after ∧ after.Settled goal tree ∧
      SameLinks store after ∧ SameOutside tree.inorder store after := by
  cases tree with
  | nil => exact ⟨store, rfl, trivial, ⟨rfl, rfl, rfl⟩, .refl _ _⟩
  | node pointer left right =>
    obtain ⟨summary, updated, met⟩ :=
      avlUpdate_refreshed linked (ready pointer (by simp)) settled.1 settled.2
    exact ⟨_, updated, refreshed_settled nodup settled.1 settled.2 met, ⟨rfl, rfl, rfl⟩,
      (store.refreshed_sameOutside _ _ _).mono (by simp)⟩

theorem updateAround_settles (linked : store.Linked above (node pointer left right))
    (nodup : (node pointer left right).inorder.Nodup)
    (ready : ∀ other ∈ (node pointer left right).inorder, store.Ready callbacks goal other)
    (leftSettled : store.ChildrenSettled goal left)
    (rightSettled : store.ChildrenSettled goal right) :
    ∃ after, updateAround callbacks pointer store = .ok after ∧
      after.Settled goal (node pointer left right) ∧ SameLinks store after ∧
      SameOutside (node pointer left right).inorder store after := by
  obtain ⟨_, _, leftIs, rightIs, leftLinked, rightLinked⟩ := id linked
  have parts := nodup_append.mp nodup
  have rightNodup := (nodup_cons.mp parts.2.1).2
  have crossing : ∀ other ∈ left.inorder, other ∉ right.inorder := fun other inLeft inRight =>
    parts.2.2 other inLeft other (mem_cons_of_mem _ inRight) rfl
  have inLeft : left.inorder ⊆ (node pointer left right).inorder := by simp
  have inRight : right.inorder ⊆ (node pointer left right).inorder := by simp
  obtain ⟨leftDone, leftRun, leftNow, leftLinks, leftSame⟩ := avlUpdate_settles leftLinked parts.1
    (fun other member => ready other (inLeft member)) leftSettled
  have rightStill : leftDone.ChildrenSettled goal right := by
    cases right with
    | nil => trivial
    | node rightPointer inner outer =>
      refine ⟨rightSettled.1.outside leftSame ?_, rightSettled.2.outside leftSame ?_⟩
      · exact fun other member left => crossing other left (by simp [member])
      · exact fun other member left => crossing other left (by simp [member])
  obtain ⟨rightDone, rightRun, rightNow, rightLinks, rightSame⟩ :=
    avlUpdate_settles (leftLinks.linked rightLinked) rightNodup
      (fun other member => (ready other (inRight member)).outside leftSame) rightStill
  have leftKept : rightDone.Settled goal left := leftNow.outside rightSame crossing
  obtain ⟨after, run, now, links, same⟩ := avlUpdate_settles
    (rightLinks.linked (leftLinks.linked linked)) nodup
    (fun other member => ((ready other member).outside leftSame).outside rightSame)
    ⟨leftKept, rightNow⟩
  refine ⟨after, ?_, now, (leftLinks.trans rightLinks).trans links,
    ((leftSame.mono inLeft).trans (rightSame.mono inRight)).trans same⟩
  rw [rootOf_node] at run
  unfold updateAround
  simp only [leftIs, leftRun, bind, Except.bind, leftLinks.right, rightIs, rightRun, run]

/-- Both rotations, once the nodes are relinked. -/
def rotateWith (callbacks : AvlCallbacks Data Summary) (child : Nat)
    (relinked : AvlStore Data Summary) : Except Fault (Nat × AvlStore Data Summary) :=
  if child = 0 then .error .nullDereference
  else do
    let updated ← updateAround callbacks child relinked
    return (child, updated)

theorem rotateWith_ok {child result : Nat} {relinked : AvlStore Data Summary}
    (run : rotateWith callbacks child relinked = .ok (result, after)) :
    child ≠ 0 ∧ result = child ∧ updateAround callbacks child relinked = .ok after := by
  unfold rotateWith at run
  split at run
  · cases run
  rename_i present
  obtain ⟨updated, updating, returned⟩ := bind_eq_ok run
  cases returned
  exact ⟨present, rfl, updating⟩

theorem rotateWith_of_updated {child : Nat} {relinked : AvlStore Data Summary}
    (present : child ≠ 0) (updating : updateAround callbacks child relinked = .ok after) :
    rotateWith callbacks child relinked = .ok (child, after) := by
  unfold rotateWith
  rw [if_neg present, updating]
  rfl

/-! ### No operation writes data -/

section DataKept

variable {store after : AvlStore Data Summary} {pointer result : Nat}

theorem avlUpdate_data (run : avlUpdate callbacks pointer store = .ok after) :
    after.data = store.data := by
  unfold avlUpdate at run
  split at run
  · cases run
    rfl
  dsimp only at run
  split at run
  · cases run
    rfl
  split at run
  · cases run
  · cases run
    rfl

theorem updateAround_data (run : updateAround callbacks pointer store = .ok after) :
    after.data = store.data := by
  obtain ⟨leftDone, leftRun, rest⟩ := bind_eq_ok run
  obtain ⟨rightDone, rightRun, last⟩ := bind_eq_ok rest
  rw [avlUpdate_data last, avlUpdate_data rightRun, avlUpdate_data leftRun]

theorem relinkRight_data (store : AvlStore Data Summary) (pointer : Nat) :
    (store.relinkRight pointer).data = store.data := by
  unfold relinkRight
  dsimp only
  split
  · rfl
  · rfl

theorem relinkLeft_data (store : AvlStore Data Summary) (pointer : Nat) :
    (store.relinkLeft pointer).data = store.data := by
  unfold relinkLeft
  dsimp only
  split
  · rfl
  · rfl

theorem avlRotateRight_data (run : avlRotateRight callbacks pointer store = .ok (result, after)) :
    after.data = store.data := by
  obtain ⟨_, _, updating⟩ := rotateWith_ok run
  rw [updateAround_data updating, relinkRight_data]

theorem avlRotateLeft_data (run : avlRotateLeft callbacks pointer store = .ok (result, after)) :
    after.data = store.data := by
  obtain ⟨_, _, updating⟩ := rotateWith_ok run
  rw [updateAround_data updating, relinkLeft_data]

theorem avlCheckAndBalance_data
    (run : avlCheckAndBalance callbacks pointer store = .ok (result, after)) :
    after.data = store.data := by
  unfold avlCheckAndBalance at run
  dsimp only at run
  split at run
  · cases run
    rfl
  split at run
  · split at run
    · exact avlRotateRight_data run
    · obtain ⟨⟨child, rotated⟩, first, second⟩ := bind_eq_ok run
      rw [avlRotateRight_data second, ← avlRotateLeft_data first]
      rfl
  · split at run
    · exact avlRotateLeft_data run
    · obtain ⟨⟨child, rotated⟩, first, second⟩ := bind_eq_ok run
      rw [avlRotateLeft_data second, ← avlRotateRight_data first]
      rfl

variable {fuel root : Nat}

theorem avlInsertRec_data {comp : Data → Int} {new : Nat}
    (run : avlInsertRec callbacks comp new fuel root store = .ok (result, after)) :
    after.data = store.data := by
  induction fuel generalizing root store result after with
  | zero => cases run
  | succ fuel ih =>
    unfold avlInsertRec at run
    obtain ⟨linked, descended, rest⟩ := bind_eq_ok run
    obtain ⟨updated, updating, balancing⟩ := bind_eq_ok rest
    rw [avlCheckAndBalance_data balancing, avlUpdate_data updating]
    split at descended
    · split at descended
      · obtain ⟨⟨child, inserted⟩, below, joined⟩ := bind_eq_ok descended
        cases joined
        have kept := ih below
        exact kept
      · cases descended
        rfl
    · split at descended
      · obtain ⟨⟨child, inserted⟩, below, joined⟩ := bind_eq_ok descended
        cases joined
        have kept := ih below
        exact kept
      · cases descended
        rfl

theorem avlInsert_keeps_data {comp : Data → Int} {new : Nat}
    (run : avlInsert callbacks comp fuel root new store = .ok (result, after)) :
    after.data = store.data := by
  unfold avlInsert at run
  split at run
  · cases run
    rfl
  · exact avlInsertRec_data run

theorem avlBubbleUpdateAndBalance_data
    (run : avlBubbleUpdateAndBalance callbacks fuel pointer store = .ok (result, after)) :
    after.data = store.data := by
  induction fuel generalizing pointer store with
  | zero => cases run
  | succ fuel ih =>
    unfold avlBubbleUpdateAndBalance at run
    split at run
    · cases run
      rfl
    obtain ⟨updated, updating, rest⟩ := bind_eq_ok run
    obtain ⟨⟨top, balanced⟩, balancing, climbing⟩ := bind_eq_ok rest
    have kept : balanced.data = store.data := by
      rw [avlCheckAndBalance_data balancing, avlUpdate_data updating]
    dsimp only at climbing
    split at climbing
    · cases climbing
      exact kept
    rw [ih climbing, ← kept]
    split
    · rfl
    · rfl

theorem replaceChild_data (store : AvlStore Data Summary) (pointer child : Nat) :
    (store.replaceChild pointer child).data = store.data := by
  unfold replaceChild
  split
  · rfl
  · rfl

theorem avlRemove_keeps_data
    (run : avlRemove callbacks fuel root pointer store = .ok (result, after)) :
    after.data = store.data := by
  induction fuel generalizing pointer store result after with
  | zero => cases run
  | succ fuel ih =>
    unfold avlRemove at run
    split at run
    · cases run
      rfl
    split at run
    · split at run
      · cases run
        rfl
      · rw [avlBubbleUpdateAndBalance_data run, replaceChild_data]
    split at run
    · obtain ⟨victim, _, rest⟩ := bind_eq_ok run
      obtain ⟨⟨top, removed⟩, removing, placing⟩ := bind_eq_ok rest
      dsimp only at placing
      split at placing
      · cases placing
      · rw [avlBubbleUpdateAndBalance_data placing, ← ih removing]
        rfl
    · dsimp only at run
      split at run
      · cases run
      · rw [avlBubbleUpdateAndBalance_data run, replaceChild_data]
        rfl

end DataKept

end AvlStore

end Fesos
