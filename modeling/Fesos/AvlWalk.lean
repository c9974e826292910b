/-
Walking the represented tree: reading it back from memory, lookup, in-order
neighbours, and the bottom-up rebalancing loop.

`LinkedAbove` describes the links of a context, so that a tree with a position
in it splits into the links above the position and those below.
-/

import Fesos.AvlBalance

set_option autoImplicit false

namespace Fesos

open BinaryTree
open List hiding nil after

namespace AvlStore

variable {Data Summary : Type} {callbacks : AvlCallbacks Data Summary}
  {goal : SummaryGoal Data Summary}

def tree (store : AvlStore Data Summary) : Nat → Nat → BinaryTree Nat
  | 0, _ => nil
  | fuel + 1, pointer =>
    if pointer = 0 then nil
    else node pointer (tree store fuel (store.left pointer)) (tree store fuel (store.right pointer))

variable {store : AvlStore Data Summary} {shape : BinaryTree Nat} {above fuel pointer : Nat}

theorem Linked.tree_eq (linked : store.Linked above shape) (enough : shape.height ≤ fuel) :
    store.tree fuel (rootOf shape) = shape := by
  induction shape generalizing above fuel with
  | nil => cases fuel <;> rfl
  | node pointer left right leftIh rightIh =>
    obtain ⟨nonzero, _, leftIs, rightIs, leftLinked, rightLinked⟩ := linked
    simp only [height] at enough
    obtain ⟨fuel, rfl⟩ : ∃ rest, fuel = rest + 1 := ⟨fuel - 1, by omega⟩
    rw [rootOf_node, tree, if_neg nonzero, leftIs, rightIs, leftIh leftLinked (by omega),
      rightIh rightLinked (by omega)]

theorem Linked.unique {other : Nat}
    {first second : BinaryTree Nat} (firstLinked : store.Linked above first)
    (secondLinked : store.Linked other second) (same : rootOf first = rootOf second) :
    first = second := by
  have readFirst := firstLinked.tree_eq (Nat.le_max_left first.height second.height)
  have readSecond := secondLinked.tree_eq (Nat.le_max_right first.height second.height)
  rw [← readFirst, same]
  exact readSecond

theorem avlGetNode_search (comp : AvlStore Data Summary → Nat → Int)
    (linked : store.Linked above shape) (enough : shape.height < fuel) :
    avlGetNode comp fuel (rootOf shape) store = .ok ((shape.search (comp store)).getD 0) := by
  suffices rec : avlGetNodeRec comp store fuel (rootOf shape) =
      .ok ((shape.search (comp store)).getD 0) by
    unfold avlGetNode
    split
    · rename_i empty
      rw [linked.root_eq_zero.mp empty]
      rfl
    · exact rec
  induction shape generalizing above fuel with
  | nil =>
    obtain ⟨fuel, rfl⟩ : ∃ rest, fuel = rest + 1 := ⟨fuel - 1, by omega⟩
    rfl
  | node pointer left right leftIh rightIh =>
    obtain ⟨nonzero, _, leftIs, rightIs, leftLinked, rightLinked⟩ := linked
    simp only [height] at enough
    obtain ⟨fuel, rfl⟩ : ∃ rest, fuel = rest + 1 := ⟨fuel - 1, by omega⟩
    rw [rootOf_node, avlGetNodeRec, if_neg nonzero, leftIs, rightIs,
      leftIh leftLinked (by omega), rightIh rightLinked (by omega)]
    simp only [search]
    split_ifs <;> rfl

/-! ### Contexts in memory -/

def parentOf : List (Frame Nat) → Nat
  | [] => 0
  | frame :: _ => frame.above

def ChildIs (store : AvlStore Data Summary) : List (Frame Nat) → Nat → Prop
  | [], _ => True
  | .left pointer _ :: _, child => store.left pointer = child
  | .right pointer _ :: _, child => store.right pointer = child

/-- The links of a context, without the open one of the nearest frame. -/
def LinkedAbove (store : AvlStore Data Summary) : List (Frame Nat) → Prop
  | [] => True
  | frame :: frames =>
    store.FrameLinked (parentOf frames) frame ∧ store.ChildIs frames frame.above ∧
      LinkedAbove store frames

theorem linked_fill (frame : Frame Nat)
    (frames : List (Frame Nat)) (shape : BinaryTree Nat) :
    store.Linked above (frame.fill shape) ↔
      store.FrameLinked above frame ∧ store.ChildIs (frame :: frames) (rootOf shape) ∧
        store.Linked frame.above shape := by
  cases frame with
  | left pointer sibling =>
    simp only [Frame.fill, Linked, FrameLinked, ChildIs, Frame.above, Frame.sibling]
    tauto
  | right pointer sibling =>
    simp only [Frame.fill, Linked, FrameLinked, ChildIs, Frame.above, Frame.sibling]
    tauto

theorem linked_plug (frames : List (Frame Nat))
    (shape : BinaryTree Nat) :
    store.Linked 0 (plug frames shape) ↔
      store.LinkedAbove frames ∧ store.ChildIs frames (rootOf shape) ∧
        store.Linked (parentOf frames) shape := by
  induction frames generalizing shape with
  | nil => simp [LinkedAbove, ChildIs, parentOf]
  | cons frame frames ih =>
    rw [plug_cons, ih, rootOf_fill, linked_fill frame frames]
    simp only [LinkedAbove, parentOf]
    tauto

variable {frames : List (Frame Nat)}

theorem ChildIs.outside {before after : AvlStore Data Summary} {nodes : List Nat} {child : Nat} (is : before.ChildIs frames child)
    (same : SameOutside nodes before after)
    (apart : ∀ pointer ∈ surroundings frames, pointer ∉ nodes) : after.ChildIs frames child := by
  cases frames with
  | nil => trivial
  | cons frame frames =>
    have here : frame.above ∉ nodes := apart _ (by simp [surroundings])
    cases frame with
    | left pointer sibling => exact (same.left _ here).trans is
    | right pointer sibling => exact (same.right _ here).trans is

theorem LinkedAbove.outside {before after : AvlStore Data Summary} {nodes : List Nat} (linked : before.LinkedAbove frames)
    (same : SameOutside nodes before after)
    (apart : ∀ pointer ∈ surroundings frames, pointer ∉ nodes) : after.LinkedAbove frames := by
  induction frames with
  | nil => trivial
  | cons frame frames ih =>
    obtain ⟨framed, child, rest⟩ := linked
    simp only [surroundings, flatMap_cons, mem_append, mem_cons] at apart
    exact ⟨framed.outside same (apart _ (by simp)) (fun pointer member =>
        apart pointer (by simp [member])),
      child.outside same (fun pointer member => apart pointer (Or.inr member)),
      ih rest (fun pointer member => apart pointer (Or.inr member))⟩

/-! ### In-order neighbours -/

theorem outermost_first (linked : store.Linked above shape) (present : shape ≠ nil)
    (enough : shape.height ≤ fuel) :
    outermost store.left fuel (rootOf shape) = .ok (shape.inorder.head?.getD 0) := by
  induction shape generalizing above fuel with
  | nil => exact absurd rfl present
  | node pointer left right leftIh _ =>
    obtain ⟨_, _, leftIs, _, leftLinked, _⟩ := linked
    simp only [height] at enough
    obtain ⟨fuel, rfl⟩ : ∃ rest, fuel = rest + 1 := ⟨fuel - 1, by omega⟩
    rw [rootOf_node, outermost, leftIs]
    by_cases empty : left = nil
    · rw [empty, if_neg (by simp)]
      rfl
    rw [if_pos (leftLinked.root_ne_zero empty), leftIh leftLinked empty (by omega),
      inorder_node]
    obtain ⟨first, rest, order⟩ := exists_cons_of_ne_nil
      (ne_nil_of_mem (rootOf_mem empty))
    rw [order]
    rfl

theorem climb_after (frames : List (Frame Nat)) {curr : Nat}
    (linked : store.LinkedAbove frames) (child : store.ChildIs frames curr)
    (nonzero : curr ≠ 0) (nodup : (curr :: surroundings frames).Nodup)
    (enough : frames.length < fuel) :
    climb store.parent store.right fuel curr (parentOf frames) =
      .ok ((after frames).head?.getD 0) := by
  induction frames generalizing curr fuel with
  | nil =>
    obtain ⟨fuel, rfl⟩ : ∃ rest, fuel = rest + 1 := ⟨fuel - 1, by omega⟩
    rfl
  | cons frame frames ih =>
    obtain ⟨⟨aboveNonzero, parentIs, siblingLinked, siblingIs⟩, nextChild, rest⟩ := linked
    obtain ⟨fuel, rfl⟩ : ∃ rest, fuel = rest + 1 := ⟨fuel - 1, by omega⟩
    simp only [surroundings, flatMap_cons, cons_append, nodup_cons,
      mem_cons, mem_append, not_or] at nodup
    rw [climb, parentOf]
    cases frame with
    | left pointer sibling =>
      have other : ¬ (pointer ≠ 0 ∧ curr = store.right pointer) := by
        rintro ⟨_, same⟩
        rw [siblingIs] at same
        by_cases empty : sibling = nil
        · rw [empty] at same
          exact nonzero same
        · exact nodup.1.2.1 (by rw [same]; exact rootOf_mem empty)
      rw [Frame.above, if_neg other]
      rfl
    | right pointer sibling =>
      rw [Frame.above, if_pos ⟨aboveNonzero, child.symm⟩]
      simp only [Frame.above] at parentIs
      rw [parentIs]
      refine ih rest nextChild aboveNonzero ?_ (by simpa using enough)
      refine nodup_cons.mpr ⟨nodup.2.1.2, ?_⟩
      exact (nodup_append.mp nodup.2.2).2.1

variable {back front : List Nat}

/-- `avl_next`: the node after `pointer` in order, or NULL. -/
theorem avlGetSuccessor_next (linked : store.Linked 0 shape)
    (nodup : shape.inorder.Nodup) (order : shape.inorder = front ++ pointer :: back)
    (enough : shape.height < fuel) :
    avlGetSuccessor fuel pointer store = .ok (back.head?.getD 0) := by
  obtain ⟨frames, left, right, found, _, backIs⟩ := focus_at nodup order
  have whole := focus_plug found
  rw [whole] at linked nodup enough
  obtain ⟨aboveLinked, child, nonzero, parentIs, _, rightIs, _, rightLinked⟩ :=
    (linked_plug _ _).mp linked
  have depth := height_le_plug frames (node pointer left right)
  simp only [height] at depth
  have separate := (plug_perm frames (node pointer left right)).nodup_iff.mp nodup
  unfold avlGetSuccessor
  rw [rightIs, backIs]
  by_cases empty : right = nil
  · rw [empty, if_neg (by simp), parentIs]
    refine climb_after frames aboveLinked child nonzero ?_ (by omega)
    rw [inorder_node, append_assoc, cons_append] at separate
    have rest := (nodup_append.mp separate).2.1
    refine rest.sublist ?_
    exact List.Sublist.cons_cons _ (sublist_append_right _ _)
  · rw [if_pos (rightLinked.root_ne_zero empty),
      outermost_first rightLinked empty (by omega)]
    obtain ⟨first, rest, order⟩ := exists_cons_of_ne_nil
      (ne_nil_of_mem (rootOf_mem empty))
    rw [order]
    rfl

/-- The store with left and right exchanged. -/
def mirror (store : AvlStore Data Summary) : AvlStore Data Summary :=
  { store with left := store.right, right := store.left }

theorem rootOf_mirror (shape : BinaryTree Nat) : rootOf shape.mirror = rootOf shape := by
  cases shape <;> rfl

theorem Linked.mirror
    (linked : store.Linked above shape) : store.mirror.Linked above shape.mirror := by
  induction shape generalizing above with
  | nil => trivial
  | node pointer left right leftIh rightIh =>
    obtain ⟨nonzero, parentIs, leftIs, rightIs, leftLinked, rightLinked⟩ := linked
    refine ⟨nonzero, parentIs, ?_, ?_, rightIh rightLinked, leftIh leftLinked⟩
    · rw [rootOf_mirror]
      exact rightIs
    · rw [rootOf_mirror]
      exact leftIs

/-- `avl_prev`: the node before `pointer` in order, or NULL. -/
theorem avlGetPredecessor_prev (linked : store.Linked 0 shape)
    (nodup : shape.inorder.Nodup) (order : shape.inorder = front ++ pointer :: back)
    (enough : shape.height < fuel) :
    avlGetPredecessor fuel pointer store = .ok (front.getLast?.getD 0) := by
  have mirrored : shape.mirror.inorder = back.reverse ++ pointer :: front.reverse := by
    rw [mirror_inorder, order]
    simp
  have next := avlGetSuccessor_next linked.mirror
    (by rw [mirror_inorder]; exact nodup_reverse.mpr nodup) mirrored
    (by rw [mirror_height]; exact enough)
  rw [List.head?_reverse] at next
  exact next

/-! ### Whole walks -/

/-- The nodes met by repeating a step until NULL. -/
def walkFrom (next : Nat → Except Fault Nat) : Nat → Nat → Except Fault (List Nat)
  | 0, _ => .error .outOfFuel
  | count + 1, pointer =>
    if pointer = 0 then .ok []
    else do
      let following ← next pointer
      let rest ← walkFrom next count following
      pure (pointer :: rest)

theorem avlFirst_head (linked : store.Linked above shape) (enough : shape.height ≤ fuel) :
    avlFirst fuel (rootOf shape) store = .ok (shape.inorder.head?.getD 0) := by
  unfold avlFirst
  by_cases empty : shape = nil
  · rw [empty]
    rfl
  · rw [if_neg (linked.root_ne_zero empty)]
    exact outermost_first linked empty enough

section

variable (linked : store.Linked 0 shape) (nodup : shape.inorder.Nodup)

include linked nodup

theorem avlNext_head
    (order : shape.inorder = front ++ pointer :: back) (enough : shape.height < fuel) :
    avlNext fuel pointer store = .ok (back.head?.getD 0) := by
  have member : pointer ∈ shape.inorder := by
    rw [order]
    exact mem_append_right _ mem_cons_self
  unfold avlNext
  rw [if_neg (linked.ne_zero member)]
  exact avlGetSuccessor_next linked nodup order enough

/-- From any place of the sequence, repeating `avl_next` visits the rest of it. -/
theorem walkFrom_next (enough : shape.height < fuel)
    (back : List Nat) : ∀ (front : List Nat) (count : Nat), shape.inorder = front ++ back →
      back.length < count →
      walkFrom (fun pointer => avlNext fuel pointer store) count (back.head?.getD 0) = .ok back := by
  induction back with
  | nil =>
    intro front count _ steps
    cases count with
    | zero => exact absurd steps (Nat.not_lt_zero _)
    | succ count => rfl
  | cons pointer back ih =>
    intro front count order steps
    cases count with
    | zero => exact absurd steps (Nat.not_lt_zero _)
    | succ count =>
      have member : pointer ∈ shape.inorder := by
        rw [order]
        exact mem_append_right _ mem_cons_self
      have shifted : shape.inorder = (front ++ [pointer]) ++ back := by
        rw [order, append_assoc]
        rfl
      have following := avlNext_head linked nodup order enough
      have rest := ih (front ++ [pointer]) count shifted (Nat.lt_of_succ_lt_succ steps)
      change walkFrom _ (count + 1) pointer = _
      rw [walkFrom, if_neg (linked.ne_zero member), following, ok_bind, rest]
      rfl

theorem walkFrom_first
    {count : Nat}
    (enough : shape.height < fuel) (steps : shape.inorder.length < count) :
    (do
      let first ← avlFirst fuel (rootOf shape) store
      walkFrom (fun pointer => avlNext fuel pointer store) count first) = .ok shape.inorder := by
  rw [avlFirst_head linked (Nat.le_of_lt enough), ok_bind]
  exact walkFrom_next linked nodup enough shape.inorder [] count rfl steps

end

/-- Both walks visit every node once, in order and in reverse order, and then meet
NULL; and `avl_prev` leads back to where `avl_next` came from. -/
theorem avl_walks_visit_all {store : AvlStore Data Summary} {shape : BinaryTree Nat}
    {fuel count : Nat} (linked : store.Linked 0 shape) (nodup : shape.inorder.Nodup)
    (enough : shape.height < fuel) (steps : shape.inorder.length < count) :
    (do
      let first ← avlFirst fuel (rootOf shape) store
      walkFrom (fun pointer => avlNext fuel pointer store) count first) = .ok shape.inorder ∧
    (do
      let last ← avlLast fuel (rootOf shape) store
      walkFrom (fun pointer => avlPrev fuel pointer store) count last) = .ok shape.inorder.reverse ∧
    ∀ pointer ∈ shape.inorder, ∃ next, avlNext fuel pointer store = .ok next ∧
      (next ≠ 0 → avlPrev fuel next store = .ok pointer) := by
  constructor
  · exact walkFrom_first linked nodup enough steps
  constructor
  · -- the way back is the way through the mirror image
    have mirrored := walkFrom_first linked.mirror
      (by rw [mirror_inorder]; exact nodup_reverse.mpr nodup)
      (by rw [mirror_height]; exact enough)
      (show shape.mirror.inorder.length < count by
        rw [mirror_inorder, length_reverse]; exact steps)
    rw [mirror_inorder, rootOf_mirror] at mirrored
    exact mirrored
  · intro pointer member
    obtain ⟨front, back, order⟩ := append_of_mem member
    refine ⟨_, avlNext_head linked nodup order enough, ?_⟩
    cases back with
    | nil => exact fun present => absurd rfl present
    | cons next back =>
      intro present
      have shifted : shape.inorder = (front ++ [pointer]) ++ next :: back := by
        rw [order, append_assoc]
        rfl
      have previous := avlGetPredecessor_prev linked nodup shifted enough
      rw [List.getLast?_append, List.getLast?_singleton] at previous
      change next ≠ 0 at present
      change avlPrev fuel next store = .ok pointer
      unfold avlPrev
      rw [if_neg present]
      exact previous

def holding (shape : BinaryTree Nat) (address : Nat) (data : Nat → Data)
    (summary : Nat → Summary) : AvlStore Data Summary where
  parent := fun pointer => ((focus pointer shape).map (fun parts => parentOf parts.1)).getD 0
  left := fun pointer => ((focus pointer shape).map (fun parts => rootOf parts.2.1)).getD 0
  right := fun pointer => ((focus pointer shape).map (fun parts => rootOf parts.2.2)).getD 0
  subtreeMaxDepth := fun pointer =>
    ((focus pointer shape).map (fun parts => max parts.2.1.height parts.2.2.height)).getD 0
  update := fun _ => address
  data := data
  summary := summary

def ofShape (shape : BinaryTree Nat) : AvlStore Unit Unit :=
  holding shape 0 (fun _ => ()) (fun _ => ())

def threeNodes : BinaryTree Nat := node 2 (node 1 nil nil) (node 3 nil nil)

theorem avl_walks_visit_all_threeNodes :
    (do
      let first ← avlFirst 3 2 (ofShape threeNodes)
      walkFrom (fun pointer => avlNext 3 pointer (ofShape threeNodes)) 4 first) = .ok [1, 2, 3] ∧
    (do
      let last ← avlLast 3 2 (ofShape threeNodes)
      walkFrom (fun pointer => avlPrev 3 pointer (ofShape threeNodes)) 4 last) = .ok [3, 2, 1] ∧
    ∀ pointer ∈ [1, 2, 3], ∃ next, avlNext 3 pointer (ofShape threeNodes) = .ok next ∧
      (next ≠ 0 → avlPrev 3 next (ofShape threeNodes) = .ok pointer) := by
  have linked : (ofShape threeNodes).Linked 0 threeNodes := by decide
  exact avl_walks_visit_all linked (by decide) (by decide) (by decide)

/-! ### The rebalancing loop -/

/-- The open link of the nearest frame as `avl_bubble_update_and_balance` tests
it: the loop decides left or right by the left link alone. -/
def Hooked (store : AvlStore Data Summary) : List (Frame Nat) → Nat → Prop
  | [], _ => True
  | .left above _ :: _, child => store.left above = child
  | .right above _ :: _, child => store.left above ≠ child

theorem ChildIs.hooked {child : Nat}
    (linked : store.LinkedAbove frames) (is : store.ChildIs frames child) (nonzero : child ≠ 0)
    (outside : child ∉ surroundings frames) : store.Hooked frames child := by
  cases frames with
  | nil => trivial
  | cons frame frames =>
    obtain ⟨⟨_, _, _, siblingIs⟩, _, _⟩ := linked
    cases frame with
    | left pointer sibling => exact is
    | right pointer sibling =>
      intro same
      simp only [surroundings, flatMap_cons, Frame.sibling, mem_append,
        mem_cons, not_or] at outside
      rw [siblingIs] at same
      by_cases empty : sibling = nil
      · rw [empty] at same
        exact nonzero same.symm
      · exact outside.1.2 (by rw [← same]; exact rootOf_mem empty)

end AvlStore

/-- The tree after rebalancing every node of a context, from a position upwards. -/
def bubble : List (Frame Nat) → BinaryTree Nat → BinaryTree Nat
  | [], shape => shape
  | frame :: frames, shape => bubble frames (rebalance (frame.fill shape))

theorem bubble_inorder (frames : List (Frame Nat)) (shape : BinaryTree Nat) :
    (bubble frames shape).inorder = (plug frames shape).inorder := by
  induction frames generalizing shape with
  | nil => rfl
  | cons frame frames ih =>
    rw [bubble, ih, plug_inorder, rebalance_inorder, ← plug_inorder]
    rfl

namespace AvlStore

variable {Data Summary : Type} {callbacks : AvlCallbacks Data Summary}
  {goal : SummaryGoal Data Summary}

variable {shape : BinaryTree Nat}

theorem rebalance_ne_nil (present : shape ≠ nil) :
    rebalance shape ≠ nil := by
  intro empty
  have order := rebalance_inorder shape
  rw [empty] at order
  have member := rootOf_mem present
  rw [← order] at member
  cases member

variable {store : AvlStore Data Summary}

theorem Linked.parent_root {above : Nat}
    (linked : store.Linked above shape) (present : shape ≠ nil) :
    store.parent (rootOf shape) = above := by
  cases shape with
  | nil => exact absurd rfl present
  | node pointer left right => exact linked.2.1

/-- What the loop needs at a frame's node once a subtree is hung below it. -/
structure Prepared (goal : Data → Option Summary → Option Summary → Summary → Prop)
    (store : AvlStore Data Summary) (frames : List (Frame Nat)) (shape : BinaryTree Nat) :
    Prop where
  linked : store.Linked (parentOf frames) shape
  above : store.LinkedAbove frames
  hooked : store.Hooked frames (rootOf shape)
  children : store.ChildrenSettled goal shape
  siblings : ∀ frame ∈ frames, store.Settled goal frame.sibling

variable {frame : Frame Nat} {frames : List (Frame Nat)}

theorem hang_prepared
    (above : store.LinkedAbove (frame :: frames)) (below : store.Linked frame.above shape)
    (nodup : (plug (frame :: frames) shape).inorder.Nodup) (settled : store.Settled goal shape)
    (siblings : ∀ other ∈ frame :: frames, store.Settled goal other.sibling) :
    Prepared goal (store.hang frame (rootOf shape)) frames (frame.fill shape) := by
  obtain ⟨framed, child, rest⟩ := above
  have separate := nodup_append.mp ((plug_perm frames (frame.fill shape)).nodup_iff.mp nodup)
  have hungSame := store.hang_sameOutside frame (rootOf shape)
  have outside : frame.above ∉ surroundings frames := fun member =>
    separate.2.2 _ (mem_fill.mpr (Or.inl rfl)) _ member rfl
  have notHung : ∀ pointer ∈ surroundings frames, pointer ∉ [frame.above] := apart_singleton outside
  have aboveNow := rest.outside hungSame notHung
  refine
    { linked := hang_linked framed below separate.1
      above := aboveNow
      hooked := ?_
      children := fill_children (hang_settled settled frame _)
        (hang_settled (siblings frame (by simp)) frame _)
      siblings := fun other member => hang_settled (siblings other (by simp [member])) frame _ }
  rw [rootOf_fill]
  exact (child.outside hungSame notHung).hooked aboveNow framed.1 outside

/-- One round of the loop below a frame: the position is rebalanced, found at its
side of the node above and hung there again. -/
theorem bubble_round (present : shape ≠ nil)
    (prepared : Prepared goal store (frame :: frames) shape)
    (nodup : (plug (frame :: frames) shape).inorder.Nodup)
    (ready : ∀ other ∈ (plug (frame :: frames) shape).inorder,
      store.Ready callbacks goal other) :
    ∃ updated balanced, avlUpdate callbacks (rootOf shape) store = .ok updated ∧
      avlCheckAndBalance callbacks (rootOf shape) updated =
        .ok (rootOf (rebalance shape), balanced) ∧
      balanced.parent (rootOf (rebalance shape)) = frame.above ∧
      (if rootOf shape = balanced.left frame.above then
          balanced.setLeft frame.above (rootOf (rebalance shape))
        else balanced.setRight frame.above (rootOf (rebalance shape))) =
        balanced.hang frame (rootOf (rebalance shape)) ∧
      Prepared goal (balanced.hang frame (rootOf (rebalance shape))) frames
        (frame.fill (rebalance shape)) ∧
      SameOutside (plug (frame :: frames) shape).inorder store
        (balanced.hang frame (rootOf (rebalance shape))) := by
  have separate := nodup_append.mp ((plug_perm (frame :: frames) shape).nodup_iff.mp nodup)
  have crossing : ∀ pointer ∈ surroundings (frame :: frames), pointer ∉ shape.inorder :=
    fun pointer outer inner => separate.2.2 pointer inner pointer outer rfl
  have inside : ∀ pointer ∈ shape.inorder, pointer ∈ (plug (frame :: frames) shape).inorder :=
    fun pointer member => (plug_perm _ _).mem_iff.mpr (mem_append_left _ member)
  obtain ⟨updated, balanced, updateRun, balanceRun, balancedLinked, settled, same⟩ :=
    update_and_balance present prepared.linked separate.1
      (fun other member => ready other (inside other member)) prepared.children
  have order : (plug (frame :: frames) (rebalance shape)).inorder =
      (plug (frame :: frames) shape).inorder := by
    rw [plug_inorder, rebalance_inorder, ← plug_inorder]
  have next := hang_prepared (prepared.above.outside same crossing) balancedLinked
    (by rw [order]; exact nodup) settled
    (fun other member => (prepared.siblings other member).outside same
      (fun pointer inSibling => crossing pointer (mem_flatMap.mpr
        ⟨other, member, mem_cons_of_mem _ inSibling⟩)))
  refine ⟨updated, balanced, updateRun, balanceRun,
    balancedLinked.parent_root (rebalance_ne_nil present), ?_, next,
    (same.mono inside).trans ((balanced.hang_sameOutside frame _).mono ?_)⟩
  · have kept := same.left frame.above (crossing _ (by simp [surroundings]))
    have hooked := prepared.hooked
    cases frame with
    | left pointer sibling => exact if_pos (kept.trans hooked).symm
    | right pointer sibling => exact if_neg (fun equal => hooked (kept.symm.trans equal.symm))
  · intro pointer member
    rw [mem_singleton.mp member, (plug_perm _ _).mem_iff]
    simp [surroundings]

/-- The loop rebalances the position and every node above it.  The nodes of the
context itself may be unsettled before. -/
theorem avlBubble_bubbles (frames : List (Frame Nat)) :
    ∀ (shape : BinaryTree Nat) (store : AvlStore Data Summary) (fuel : Nat), shape ≠ nil →
      frames.length < fuel → Prepared goal store frames shape →
      (plug frames shape).inorder.Nodup →
      (∀ other ∈ (plug frames shape).inorder, store.Ready callbacks goal other) →
      ∃ after, avlBubbleUpdateAndBalance callbacks fuel (rootOf shape) store =
          .ok (rootOf (bubble frames (rebalance shape)), after) ∧
        after.Linked 0 (bubble frames (rebalance shape)) ∧
        after.Settled goal (bubble frames (rebalance shape)) ∧
        SameOutside (plug frames shape).inorder store after := by
  induction frames with
  | nil =>
    intro shape store fuel present enough prepared nodup ready
    obtain ⟨fuel, rfl⟩ : ∃ rest, fuel = rest + 1 := ⟨fuel - 1, by omega⟩
    obtain ⟨updated, after, updateRun, balanceRun, afterLinked, settled, same⟩ :=
      update_and_balance present prepared.linked nodup ready prepared.children
    refine ⟨after, ?_, afterLinked, settled, same⟩
    have top := afterLinked.parent_root (rebalance_ne_nil present)
    rw [avlBubbleUpdateAndBalance, if_neg (prepared.linked.root_ne_zero present), updateRun,
      ok_bind, balanceRun, ok_bind]
    exact if_pos top
  | cons frame frames ih =>
    intro shape store fuel present enough prepared nodup ready
    obtain ⟨fuel, rfl⟩ : ∃ rest, fuel = rest + 1 := ⟨fuel - 1, by omega⟩
    obtain ⟨updated, balanced, updateRun, balanceRun, up, test, next, same⟩ :=
      bubble_round present prepared nodup ready
    have order : (plug frames (frame.fill (rebalance shape))).inorder =
        (plug (frame :: frames) shape).inorder := by
      rw [← plug_cons, plug_inorder, rebalance_inorder, ← plug_inorder]
    obtain ⟨after, run, afterLinked, afterSettled, afterSame⟩ :=
      ih (frame.fill (rebalance shape)) (balanced.hang frame (rootOf (rebalance shape))) fuel
        (fill_ne_nil _ _) (by simpa using enough) next (by rw [order]; exact nodup)
        (fun other member => (ready other (by rw [← order]; exact member)).outside same)
    refine ⟨after, ?_, afterLinked, afterSettled,
      same.trans (by rw [← order]; exact afterSame)⟩
    rw [rootOf_fill] at run
    rw [avlBubbleUpdateAndBalance, if_neg (prepared.linked.root_ne_zero present), updateRun,
      ok_bind, balanceRun, ok_bind]
    simp only [up, if_neg prepared.above.1.1, test, run]
    rfl

/-- Hang a settled subtree below the nearest frame and rebalance upwards. -/
theorem hang_and_bubble {fuel : Nat}
    (enough : frames.length < fuel)
    (above : store.LinkedAbove (frame :: frames)) (below : store.Linked frame.above shape)
    (nodup : (plug (frame :: frames) shape).inorder.Nodup)
    (ready : ∀ other ∈ (plug (frame :: frames) shape).inorder, store.Ready callbacks goal other)
    (settled : store.Settled goal shape)
    (siblings : ∀ other ∈ frame :: frames, store.Settled goal other.sibling) :
    ∃ after, avlBubbleUpdateAndBalance callbacks fuel frame.above
          (store.hang frame (rootOf shape)) =
        .ok (rootOf (bubble (frame :: frames) shape), after) ∧
      after.Linked 0 (bubble (frame :: frames) shape) ∧
      after.Settled goal (bubble (frame :: frames) shape) ∧
      SameOutside (plug (frame :: frames) shape).inorder store after := by
  have hungSame := store.hang_sameOutside frame (rootOf shape)
  obtain ⟨after, run, linked, afterSettled, same⟩ :=
    avlBubble_bubbles frames (frame.fill shape) (store.hang frame (rootOf shape)) fuel
      (fill_ne_nil _ _) enough (hang_prepared above below nodup settled siblings) nodup
      (fun other member => (ready other member).outside hungSame)
  rw [rootOf_fill] at run
  refine ⟨after, run, linked, afterSettled, (hungSame.mono ?_).trans same⟩
  intro pointer member
  rw [mem_singleton.mp member, (plug_perm _ _).mem_iff]
  simp [surroundings]

end AvlStore

end Fesos
