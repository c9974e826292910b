/-
A left child whose successor takes its place.

The rebalancing loop tests the parent's left link against the successor, which is
not there yet, and hangs the successor on the right.  The left link stays stale to
the end of the loop: what the loop does above the parent does not depend on it, so
the run is the run of a tree without it.
-/

import Fesos.AvlPositions

set_option autoImplicit false

namespace Fesos

open BinaryTree Function
open List hiding nil

namespace AvlStore

variable {Data Summary : Type} {callbacks : AvlCallbacks Data Summary}
  {goal : SummaryGoal Data Summary}

/-! ### A stale left link

A left link the code neither reads nor writes may hold anything. -/

section Stale

variable {store after : AvlStore Data Summary} {above pointer root stale value : Nat}

theorem setLeft_comm {first second : Nat} (different : first ≠ second) (one two : Nat) :
    (store.setLeft first one).setLeft second two =
      (store.setLeft second two).setLeft first one := by
  unfold setLeft
  dsimp only
  rw [update_comm different]

theorem avlUpdate_links (run : avlUpdate callbacks pointer store = .ok after) :
    SameLinks store after := by
  unfold avlUpdate at run
  dsimp only at run
  split at run
  · cases run
    exact ⟨rfl, rfl, rfl⟩
  split at run
  · cases run
    exact ⟨rfl, rfl, rfl⟩
  split at run
  · cases run
  · cases run
    exact ⟨rfl, rfl, rfl⟩

theorem avlUpdate_setLeft (run : avlUpdate callbacks pointer store = .ok after)
    (other : pointer ≠ stale) :
    avlUpdate callbacks pointer (store.setLeft stale value) = .ok (after.setLeft stale value) := by
  have leftSame : (store.setLeft stale value).left pointer = store.left pointer :=
    update_of_ne other _ _
  unfold avlUpdate at run ⊢
  dsimp only at run ⊢
  rw [leftSame]
  change (if pointer = 0 then _ else if store.update pointer = 0 then _ else _) = _
  split at run
  · rename_i isNull
    cases run
    exact if_pos isNull
  rename_i present
  rw [if_neg present]
  split at run
  · rename_i plain
    cases run
    exact if_pos plain
  rename_i called
  rw [if_neg called]
  rw [show (store.setLeft stale value).update = store.update from rfl]
  cases known : callbacks (store.update pointer) with
  | none =>
    rw [known] at run
    cases run
  | some callback =>
    rw [known] at run
    cases run
    rfl

theorem updateAround_setLeft (run : updateAround callbacks root store = .ok after)
    (notRoot : root ≠ stale) (notLeft : store.left root ≠ stale)
    (notRight : store.right root ≠ stale) :
    updateAround callbacks root (store.setLeft stale value) =
      .ok (after.setLeft stale value) := by
  have leftSame : (store.setLeft stale value).left root = store.left root :=
    update_of_ne notRoot _ _
  unfold updateAround at run ⊢
  rw [leftSame]
  cases leftRun : avlUpdate callbacks (store.left root) store with
  | error fault =>
    rw [leftRun] at run
    cases run
  | ok leftDone =>
    rw [leftRun, ok_bind] at run
    rw [avlUpdate_setLeft leftRun notLeft, ok_bind]
    have rightIs := congrFun (avlUpdate_links leftRun).right root
    change (do
      let rightDone ← avlUpdate callbacks (leftDone.right root) (leftDone.setLeft stale value)
      avlUpdate callbacks root rightDone) = _
    rw [rightIs] at run ⊢
    obtain ⟨rightDone, rightRun, run⟩ := bind_eq_ok run
    rw [avlUpdate_setLeft rightRun notRight, ok_bind]
    exact avlUpdate_setLeft run notRoot

theorem rotateWith_setLeft {child : Nat}
    (run : rotateWith callbacks child store = .ok (root, after)) (notChild : child ≠ stale)
    (notLeft : store.left child ≠ stale) (notRight : store.right child ≠ stale) :
    rotateWith callbacks child (store.setLeft stale value) =
      .ok (root, after.setLeft stale value) := by
  obtain ⟨present, rootIs, updating⟩ := rotateWith_ok run
  rw [rootIs]
  exact rotateWith_of_updated present
    (updateAround_setLeft updating notChild notLeft notRight)

theorem rootOf_ne_of_not_mem {shape : BinaryTree Nat} (nonzero : stale ≠ 0)
    (absent : stale ∉ shape.inorder) : rootOf shape ≠ stale := by
  intro same
  rw [← same] at nonzero absent
  exact absent (rootOf_mem_of_ne_zero nonzero)

theorem avlRotateRight_setLeft {child : Nat} {outer inner right : BinaryTree Nat}
    (linked : store.Linked above (node pointer (node child outer inner) right))
    (nodup : (node pointer (node child outer inner) right).inorder.Nodup)
    (run : avlRotateRight callbacks pointer store = .ok (root, after)) (nonzero : stale ≠ 0)
    (notHere : pointer ≠ stale) (apart : stale ∉ (node child outer inner).inorder) :
    avlRotateRight callbacks pointer (store.setLeft stale value) =
      .ok (root, after.setLeft stale value) := by
  obtain ⟨relinked, _⟩ := relinkRight_linked linked nodup
  obtain ⟨_, _, nowLeft, nowRight, _, _⟩ := relinked
  rw [inorder_node, mem_append, mem_cons, not_or, not_or] at apart
  have notChild : child ≠ stale := fun same => apart.2.1 same.symm
  have leftIs : store.left pointer = child := linked.2.2.1
  have leftSame : (store.setLeft stale value).left pointer = child :=
    (update_of_ne notHere _ _).trans leftIs
  have relinkSame : (store.setLeft stale value).relinkRight pointer =
      (store.relinkRight pointer).setLeft stale value := by
    rw [relinkRight_eq, relinkRight_eq, leftSame, leftIs]
    unfold setLeft
    congr 1
    funext other
    simp only [update_apply]
    grind
  have outerRoot := rootOf_ne_of_not_mem nonzero apart.1
  rw [← nowLeft] at outerRoot
  rw [rootOf_node] at nowRight
  change rotateWith callbacks (store.left pointer) _ = _ at run
  change rotateWith callbacks ((store.setLeft stale value).left pointer) _ = _
  rw [leftIs] at run
  rw [leftSame, relinkSame]
  exact rotateWith_setLeft run notChild outerRoot (by rw [nowRight]; exact notHere)

theorem avlRotateLeft_setLeft {child : Nat} {left inner outer : BinaryTree Nat}
    (linked : store.Linked above (node pointer left (node child inner outer)))
    (nodup : (node pointer left (node child inner outer)).inorder.Nodup)
    (run : avlRotateLeft callbacks pointer store = .ok (root, after)) (nonzero : stale ≠ 0)
    (notHere : pointer ≠ stale) (apart : stale ∉ (node child inner outer).inorder) :
    avlRotateLeft callbacks pointer (store.setLeft stale value) =
      .ok (root, after.setLeft stale value) := by
  obtain ⟨relinked, _⟩ := relinkLeft_linked linked nodup
  obtain ⟨_, _, nowLeft, nowRight, _, _⟩ := relinked
  rw [inorder_node, mem_append, mem_cons, not_or, not_or] at apart
  have notChild : child ≠ stale := fun same => apart.2.1 same.symm
  have rightIs : store.right pointer = child := linked.2.2.2.1
  have rightSame : (store.setLeft stale value).right pointer = child := rightIs
  have relinkSame : (store.setLeft stale value).relinkLeft pointer =
      (store.relinkLeft pointer).setLeft stale value := by
    have innerSame : (store.setLeft stale value).left child = store.left child :=
      update_of_ne notChild _ _
    rw [relinkLeft_eq, relinkLeft_eq, rightSame, innerSame, rightIs]
    unfold setLeft
    congr 1
    funext other
    simp only [update_apply]
    grind
  have outerRoot := rootOf_ne_of_not_mem nonzero apart.2.2
  rw [← nowRight] at outerRoot
  rw [rootOf_node] at nowLeft
  change rotateWith callbacks (store.right pointer) _ = _ at run
  change rotateWith callbacks ((store.setLeft stale value).right pointer) _ = _
  rw [rightIs] at run
  rw [rightSame, relinkSame]
  exact rotateWith_setLeft run notChild (by rw [nowLeft]; exact notHere) outerRoot

theorem avlGetBalanceFactor_setLeft (other : pointer ≠ stale) :
    (store.setLeft stale value).avlGetBalanceFactor pointer = store.avlGetBalanceFactor pointer := by
  have leftSame : (store.setLeft stale value).left pointer = store.left pointer :=
    update_of_ne other _ _
  unfold avlGetBalanceFactor
  rw [leftSame]
  rfl

theorem avlCheckAndBalance_setLeft {left right : BinaryTree Nat}
    (linked : store.Linked above (node pointer left right))
    (nodup : (node pointer left right).inorder.Nodup)
    (ready : ∀ other ∈ (node pointer left right).inorder, store.Ready callbacks goal other)
    (leftSettled : store.Settled goal left) (rightSettled : store.Settled goal right)
    (nonzero : stale ≠ 0) (notHere : pointer ≠ stale)
    (light : (stale ∉ right.inorder ∧ left.height ≤ right.height + 1) ∨
      (stale ∉ left.inorder ∧ right.height ≤ left.height + 1))
    (run : avlCheckAndBalance callbacks pointer store = .ok (root, after)) :
    avlCheckAndBalance callbacks pointer (store.setLeft stale value) =
      .ok (root, after.setLeft stale value) := by
  obtain ⟨_, _, leftIs, rightIs, leftLinked, rightLinked⟩ := id linked
  have parts := nodup_append.mp nodup
  have leftNow : (store.setLeft stale value).left pointer = rootOf left :=
    (update_of_ne notHere _ _).trans leftIs
  have rightNow : (store.setLeft stale value).right pointer = rootOf right := rightIs
  have leftApart : right.height + 1 < left.height → stale ∉ left.inorder := fun high =>
    light.elim (fun low => absurd low.2 (by omega)) And.left
  have rightApart : left.height + 1 < right.height → stale ∉ right.inorder := fun high =>
    light.elim And.left (fun low => absurd low.2 (by omega))
  obtain ⟨turning, rebalanced⟩ := rebalance_turns pointer left right
  rw [linked.check leftSettled rightSettled rebalanced] at run
  rw [avlCheckAndBalance_turns rebalanced
    ((avlGetBalanceFactor_setLeft notHere).trans (balanceFactor_eq linked leftSettled rightSettled))
    (fun high => by
      rw [leftNow, avlGetBalanceFactor_setLeft (rootOf_ne_of_not_mem nonzero (leftApart high))]
      exact leftLinked.factor leftSettled high)
    (fun high => by
      rw [rightNow, avlGetBalanceFactor_setLeft (rootOf_ne_of_not_mem nonzero (rightApart high))]
      exact rightLinked.factor rightSettled high)]
  generalize rebalance (node pointer left right) = turned at rebalanced
  cases rebalanced with
  | stands =>
    cases run
    rfl
  | right leaning heavy =>
    exact avlRotateRight_setLeft linked nodup run nonzero notHere
      (leftApart (by rw [height]; omega))
  | @doubleRight _ child middle outer innerLeft innerRight _ leaning heavy =>
    have apart := leftApart (by simp only [height]; omega)
    obtain ⟨rotated, firstRun, hung, _, _, _⟩ :=
      left_child_rotates linked nodup ready leftSettled rightSettled
    have innerApart : stale ∉ (node middle innerLeft innerRight).inorder := fun member =>
      apart (mem_append_right _ (mem_cons_of_mem _ member))
    rw [turn, leftIs, rootOf_node, firstRun, ok_bind] at run
    rw [turn, leftNow, rootOf_node, avlRotateLeft_setLeft leftLinked parts.1 firstRun nonzero
      (rootOf_ne_of_not_mem nonzero apart) innerApart, ok_bind]
    change avlRotateRight callbacks pointer
      ((rotated.setLeft stale value).setLeft pointer middle) = _
    rw [setLeft_comm (Ne.symm notHere)]
    apply avlRotateRight_setLeft hung _ run nonzero notHere
    · simpa using apart
    · simpa using nodup
  | left leaning heavy =>
    exact avlRotateLeft_setLeft linked nodup run nonzero notHere
      (rightApart (by rw [height]; omega))
  | @doubleLeft _ child middle _ innerLeft innerRight outer leaning heavy =>
    have apart := rightApart (by simp only [height]; omega)
    obtain ⟨rotated, firstRun, hung, _, _, _⟩ :=
      right_child_rotates linked nodup ready leftSettled rightSettled
    have innerApart : stale ∉ (node middle innerLeft innerRight).inorder := fun member =>
      apart (mem_append_left _ member)
    rw [turn, rightIs, rootOf_node, firstRun, ok_bind] at run
    rw [turn, rightNow, rootOf_node, avlRotateRight_setLeft rightLinked
      (nodup_cons.mp parts.2.1).2 firstRun nonzero (rootOf_ne_of_not_mem nonzero apart) innerApart,
      ok_bind]
    apply avlRotateLeft_setLeft hung _ run nonzero notHere
    · simpa using apart
    · simpa using nodup

/-- One round of the loop, with the stale link below the position and the other
side not the lighter one by two. -/
theorem round_setLeft (value : Nat) {frame : Frame Nat} {inner : BinaryTree Nat}
    {updated balanced : AvlStore Data Summary}
    (linked : store.Linked above (frame.fill inner)) (nodup : (frame.fill inner).inorder.Nodup)
    (ready : ∀ other ∈ (frame.fill inner).inorder, store.Ready callbacks goal other)
    (children : store.ChildrenSettled goal (frame.fill inner)) (within : stale ∈ inner.inorder)
    (light : inner.height ≤ frame.sibling.height + 1)
    (updateRun : avlUpdate callbacks frame.above store = .ok updated)
    (balanceRun : avlCheckAndBalance callbacks frame.above updated = .ok (root, balanced)) :
    avlUpdate callbacks frame.above (store.setLeft stale value) =
        .ok (updated.setLeft stale value) ∧
      avlCheckAndBalance callbacks frame.above (updated.setLeft stale value) =
        .ok (root, balanced.setLeft stale value) := by
  obtain ⟨⟨notInner, notSibling⟩, _, _, crossing⟩ := fill_nodup.mp nodup
  have notHere : frame.above ≠ stale := by
    intro same
    rw [same] at notInner
    exact notInner within
  have nonzero : stale ≠ 0 := linked.ne_zero (mem_fill.mpr (Or.inr (Or.inl within)))
  obtain ⟨also, again, settled, links, same⟩ := avlUpdate_settles linked nodup ready children
  rw [rootOf_fill, updateRun] at again
  cases again
  refine ⟨avlUpdate_setLeft updateRun notHere, ?_⟩
  have readyNow : ∀ other ∈ (frame.fill inner).inorder, updated.Ready callbacks goal other :=
    fun other member => (ready other member).outside same
  have linkedNow := links.linked linked
  cases frame with
  | left pointer sibling =>
    exact avlCheckAndBalance_setLeft linkedNow nodup readyNow settled.2.2.1 settled.2.2.2 nonzero
      notHere (Or.inl ⟨crossing stale within, light⟩) balanceRun
  | right pointer sibling =>
    exact avlCheckAndBalance_setLeft linkedNow nodup readyNow settled.2.2.1 settled.2.2.2 nonzero
      notHere (Or.inr ⟨crossing stale within, light⟩) balanceRun

end Stale

/-- The loop does not see a stale left link below its starting point. -/
theorem avlBubble_setLeft {stale : Nat} (value : Nat) (frames : List (Frame Nat)) :
    ∀ (frame : Frame Nat) (inner old : BinaryTree Nat) (store after : AvlStore Data Summary)
      (fuel root : Nat), Prepared goal store frames (frame.fill inner) →
      (plug frames (frame.fill inner)).inorder.Nodup →
      (∀ other ∈ (plug frames (frame.fill inner)).inorder, store.Ready callbacks goal other) →
      stale ∈ inner.inorder → Upright (frame :: frames) old → inner.height ≤ old.height →
      old.height ≤ inner.height + 1 →
      avlBubbleUpdateAndBalance callbacks fuel frame.above store = .ok (root, after) →
      avlBubbleUpdateAndBalance callbacks fuel frame.above (store.setLeft stale value) =
        .ok (root, after.setLeft stale value) := by
  induction frames with
  | nil =>
    intro frame inner old store after fuel root prepared nodup ready within upright least most run
    cases fuel with
    | zero => cases run
    | succ fuel =>
      obtain ⟨updated, balanced, updateRun, balanceRun, balancedLinked, _, _⟩ :=
        update_and_balance (fill_ne_nil frame inner) prepared.linked nodup ready
          prepared.children
      have top : balanced.parent (rootOf (rebalance (frame.fill inner))) = 0 :=
        balancedLinked.parent_root (rebalance_ne_nil (fill_ne_nil frame inner))
      have present := prepared.linked.root_ne_zero (fill_ne_nil frame inner)
      rw [rootOf_fill] at updateRun balanceRun present
      obtain ⟨updateStale, balanceStale⟩ := round_setLeft value prepared.linked nodup
        ready prepared.children within (by have := upright.1.1; omega) updateRun balanceRun
      rw [avlBubbleUpdateAndBalance, if_neg present, updateRun, ok_bind, balanceRun,
        ok_bind] at run
      dsimp only at run
      rw [if_pos top] at run
      cases run
      rw [avlBubbleUpdateAndBalance, if_neg present, updateStale, ok_bind, balanceStale, ok_bind]
      exact if_pos top
  | cons next frames ih =>
    intro frame inner old store after fuel root prepared nodup ready within upright least most run
    cases fuel with
    | zero => cases run
    | succ fuel =>
      obtain ⟨updated, balanced, updateRun, balanceRun, up, test, nextPrepared, same⟩ :=
        bubble_round (fill_ne_nil frame inner) prepared nodup ready
      have separate := nodup_append.mp ((plug_perm _ _).nodup_iff.mp nodup)
      have present := prepared.linked.root_ne_zero (fill_ne_nil frame inner)
      have order : (plug frames (next.fill (rebalance (frame.fill inner)))).inorder =
          (plug (next :: frames) (frame.fill inner)).inorder := by
        rw [← plug_cons, plug_inorder, rebalance_inorder, ← plug_inorder]
      have notNext : next.above ≠ stale := by
        intro equal
        exact separate.2.2 stale (mem_fill.mpr (Or.inr (Or.inl within))) next.above
          (by simp [surroundings]) equal.symm
      rw [rootOf_fill] at updateRun balanceRun present test
      obtain ⟨updateStale, balanceStale⟩ := round_setLeft value prepared.linked
        separate.1 (fun other member => ready other
          ((plug_perm _ _).mem_iff.mpr (mem_append_left _ member)))
        prepared.children within (by have := upright.1.1; omega) updateRun balanceRun
      obtain ⟨_, low, high⟩ := rebalance_open frame least most upright.1
      rw [avlBubbleUpdateAndBalance, if_neg present, updateRun, ok_bind, balanceRun,
        ok_bind] at run
      dsimp only at run
      rw [up, if_neg prepared.above.1.1, test] at run
      have rest := ih next (rebalance (frame.fill inner)) (frame.fill old)
        (balanced.hang next (rootOf (rebalance (frame.fill inner)))) after fuel root nextPrepared
        (by rw [order]; exact nodup)
        (fun other member => (ready other (by rw [← order]; exact member)).outside same)
        (by rw [rebalance_inorder]; exact mem_fill.mpr (Or.inr (Or.inl within)))
        upright.2 low high run
      rw [avlBubbleUpdateAndBalance, if_neg present, updateStale, ok_bind, balanceStale, ok_bind]
      have leftSame : (balanced.setLeft stale value).left next.above =
          balanced.left next.above := update_of_ne notNext _ _
      have upStale : (balanced.setLeft stale value).parent
          (rootOf (rebalance (frame.fill inner))) = next.above := up
      dsimp only
      rw [upStale, if_neg prepared.above.1.1, leftSame, ← rest, ← test]
      by_cases side : frame.above = balanced.left next.above
      · rw [if_pos side, if_pos side]
        rw [setLeft_comm notNext.symm]
      · rw [if_neg side, if_neg side]
        rfl

/-! ### The successor of a left child

It is hung on the parent's right, where the sibling was; the parent's left link
keeps leading to the removed node. -/

section Misplaced

variable {store : AvlStore Data Summary} {frames : List (Frame Nat)}
  {up victim pointer : Nat} {left right : BinaryTree Nat}

/-- The rounds at the successor and at the parent: neither rotates. -/
theorem misplaced_rounds (fuel : Nat) (placed : store.Linked up (node victim left right))
    (upNonzero : up ≠ 0) (upParent : store.parent up = parentOf frames)
    (hung : store.left up = pointer) (nonzero : pointer ≠ 0)
    (depth : store.subtreeMaxDepth pointer = max left.height right.height)
    (leftExact : store.DepthsExact left) (rightExact : store.DepthsExact right)
    (nodup : (node up nil (node victim left right)).inorder.Nodup)
    (apart : pointer ∉ (node up nil (node victim left right)).inorder)
    (callable : ∀ other ∈ (node up nil (node victim left right)).inorder,
      store.Callable callbacks other)
    (leftClose : left.height ≤ right.height + 1) (rightClose : right.height ≤ left.height + 1) :
    ∃ hooked, avlBubbleUpdateAndBalance callbacks (fuel + 2) victim store =
        (if parentOf frames = 0 then .ok (up, hooked)
          else avlBubbleUpdateAndBalance callbacks fuel (parentOf frames)
            (if up = hooked.left (parentOf frames) then hooked.setLeft (parentOf frames) up
              else hooked.setRight (parentOf frames) up)) ∧
      hooked.left up = pointer ∧
      (hooked.setLeft up 0).Linked (parentOf frames) (node up nil (node victim left right)) ∧
      (hooked.setLeft up 0).DepthsExact (node up nil (node victim left right)) ∧
      SameOutside (node up nil (node victim left right)).inorder store hooked := by
  have order : (node up nil (node victim left right)).inorder =
      up :: (node victim left right).inorder := rfl
  rw [order, nodup_cons] at nodup
  rw [order, mem_cons, not_or] at apart
  rw [order] at callable ⊢
  obtain ⟨upFar, victimNodup⟩ := nodup
  obtain ⟨notUp, pointerFar⟩ := apart
  have victimInside : victim ∈ (node victim left right).inorder := by simp
  have notVictim : pointer ≠ victim := fun same => pointerFar (same ▸ victimInside)
  have upOther : up ≠ victim := fun same => upFar (same ▸ victimInside)
  obtain ⟨updated, balanced, updateRun, balanceRun, balancedLinked, balancedExact, same⟩ :=
    update_and_balance (show node victim left right ≠ nil by simp) placed victimNodup
      (fun other member => (callable other (mem_cons_of_mem _ member)).ready)
      ⟨leftExact, rightExact⟩
  rw [rebalance_standing victim leftClose rightClose] at balanceRun balancedLinked balancedExact
  rw [rootOf_node] at updateRun balanceRun
  have stillHung : balanced.left up = pointer := (same.left up upFar).trans hung
  have victimDepth : balanced.subtreeMaxDepth victim = max left.height right.height :=
    balancedExact.1
  have pointerDepth : balanced.subtreeMaxDepth pointer = max left.height right.height :=
    (same.depth pointer pointerFar).trans depth
  have rightSame := balanced.setRight_sameOutside up victim
  obtain ⟨summary, upRun, _⟩ := avlUpdate_ready upNonzero
    (((callable up mem_cons_self).ready.outside same).outside rightSame)
  have rightIs : (balanced.setRight up victim).right up = victim := update_self _ _ _
  have leftIs : (balanced.setRight up victim).left up = pointer := stillHung
  have upDepth : (balanced.setRight up victim).depthAt up = max left.height right.height + 1 := by
    unfold depthAt
    rw [rightIs, leftIs, if_pos nonzero, if_pos placed.1]
    change (max (balanced.subtreeMaxDepth pointer : Int) (balanced.subtreeMaxDepth victim) +
      1).toNat = _
    rw [pointerDepth, victimDepth]
    omega
  rw [upDepth] at upRun
  have refreshedSame := (balanced.setRight up victim).refreshed_sameOutside up
    (max left.height right.height + 1) summary
  obtain ⟨hooked, hookedIs⟩ : ∃ hooked, hooked = (balanced.setRight up victim).refreshed up
    (max left.height right.height + 1) summary := ⟨_, rfl⟩
  rw [← hookedIs] at upRun refreshedSame
  have hookedLeft : hooked.left up = pointer := by
    rw [hookedIs]
    exact leftIs
  have hookedRight : hooked.right up = victim := by
    rw [hookedIs]
    exact rightIs
  have hookedParent : hooked.parent up = parentOf frames := by
    rw [hookedIs]
    exact (same.parent up upFar).trans upParent
  have hookedDepth : hooked.subtreeMaxDepth up = max left.height right.height + 1 := by
    rw [hookedIs]
    exact update_self _ _ _
  have bothDepths : hooked.subtreeMaxDepth pointer = hooked.subtreeMaxDepth victim := by
    rw [refreshedSame.depth pointer (by simpa using notUp),
      refreshedSame.depth victim (by simpa using upOther.symm)]
    exact pointerDepth.trans victimDepth.symm
  have level : hooked.avlGetBalanceFactor up = 0 := by
    unfold avlGetBalanceFactor
    rw [hookedLeft, hookedRight, if_pos nonzero, if_pos placed.1, bothDepths]
    exact Int.sub_self _
  have clean : SameOutside [up] balanced (hooked.setLeft up 0) :=
    (rightSame.trans refreshedSame).trans (hooked.setLeft_sameOutside up 0)
  have victimApart : ∀ other ∈ (node victim left right).inorder, other ∉ [up] :=
    apart_singleton upFar
  refine ⟨hooked, ?_, hookedLeft, ⟨upNonzero, hookedParent, update_self _ _ _, hookedRight,
    trivial, balancedLinked.outside clean victimApart⟩, ⟨?_, trivial, trivial,
    balancedExact.outside clean victimApart⟩, ?_⟩
  · have upIs : balanced.parent victim = up := balancedLinked.2.1
    rw [avlBubbleUpdateAndBalance, if_neg placed.1, updateRun, ok_bind, balanceRun, ok_bind]
    dsimp only
    rw [upIs, if_neg upNonzero, stillHung, if_neg notVictim.symm, avlBubbleUpdateAndBalance,
      if_neg upNonzero, upRun, ok_bind]
    unfold avlCheckAndBalance
    dsimp only
    rw [level, if_pos (by decide), ok_bind]
    dsimp only
    rw [hookedParent]
  · change hooked.subtreeMaxDepth up = max 0 (max left.height right.height + 1)
    rw [Nat.zero_max]
    exact hookedDepth
  · exact ((same.mono (subset_cons_self _ _)).trans (rightSame.mono (by simp))).trans
      (refreshedSame.mono (by simp))

/-- The loop goes on above the parent and ends with the stale link. -/
theorem misplaced_bubbles {fuel : Nat} {sibling : BinaryTree Nat}
    (placed : store.Linked up (node victim left right))
    (above : store.LinkedAbove (.left up sibling :: frames))
    (hung : store.left up = pointer) (nonzero : pointer ≠ 0)
    (depth : store.subtreeMaxDepth pointer = max left.height right.height)
    (leftExact : store.DepthsExact left) (rightExact : store.DepthsExact right)
    (siblings : ∀ frame ∈ frames, store.DepthsExact frame.sibling)
    (nodup : (plug frames (node up nil (node victim left right))).inorder.Nodup)
    (apart : pointer ∉ (node up nil (node victim left right)).inorder)
    (callable : ∀ other ∈ (plug frames (node up nil (node victim left right))).inorder,
      store.Callable callbacks other)
    (leftClose : left.height ≤ right.height + 1) (rightClose : right.height ≤ left.height + 1)
    (upright : Upright (.left up sibling :: frames) (node pointer left right))
    (enough : frames.length < fuel) :
    ∃ root after, avlBubbleUpdateAndBalance callbacks (fuel + 2) victim store = .ok (root, after) ∧
      after.left up = pointer := by
  obtain ⟨⟨upNonzero, upParent, _, _⟩, childIs, rest⟩ := above
  have separate := nodup_append.mp ((plug_perm frames _).nodup_iff.mp nodup)
  have inside : ∀ other ∈ (node up nil (node victim left right)).inorder,
      other ∈ (plug frames (node up nil (node victim left right))).inorder := fun other member =>
    (plug_perm _ _).mem_iff.mpr (mem_append_left _ member)
  obtain ⟨hooked, run, stillHung, cleanLinked, cleanExact, same⟩ :=
    misplaced_rounds fuel placed upNonzero upParent hung nonzero depth leftExact rightExact
      separate.1 apart (fun other member => callable other (inside other member)) leftClose rightClose
  rw [run]
  cases frames with
  | nil => exact ⟨up, hooked, rfl, stillHung⟩
  | cons frame frames =>
    have crossing : ∀ other ∈ surroundings (frame :: frames),
        other ∉ (node up nil (node victim left right)).inorder :=
      fun other outer inner => separate.2.2 other inner other outer rfl
    have cleanSame : SameOutside (node up nil (node victim left right)).inorder store
        (hooked.setLeft up 0) :=
      same.trans ((hooked.setLeft_sameOutside up 0).mono (by simp))
    have cleanAbove := rest.outside cleanSame crossing
    have cleanSiblings : ∀ other ∈ frame :: frames,
        (hooked.setLeft up 0).DepthsExact other.sibling := fun other member =>
      (siblings other member).outside cleanSame (fun pointer inSibling =>
        crossing pointer (mem_flatMap.mpr ⟨other, member, mem_cons_of_mem _ inSibling⟩))
    have cleanReady : ∀ other ∈ (plug (frame :: frames)
        (node up nil (node victim left right))).inorder,
        (hooked.setLeft up 0).Ready callbacks (fun _ _ _ _ => True) other :=
      fun other member => (callable other member).ready.outside cleanSame
    have upInside : up ∈ (node up nil (node victim left right)).inorder := mem_cons_self
    have upAway : up ∉ surroundings (frame :: frames) := fun outer => crossing up outer upInside
    have frameOther : frame.above ≠ up := by
      intro equal
      apply upAway
      rw [← equal]
      simp [surroundings]
    have prepared := hang_prepared cleanAbove cleanLinked nodup cleanExact cleanSiblings
    obtain ⟨after, cleanRun, _, _, _⟩ := hang_and_bubble (Nat.lt_of_succ_lt enough) cleanAbove
      cleanLinked nodup cleanReady cleanExact cleanSiblings
    have staleRun := avlBubble_setLeft pointer frames frame _
      (node up (node pointer left right) sibling) _ after fuel _ prepared nodup
      (fun other member => (cleanReady other member).outside (hang_sameOutside _ frame _))
      upInside upright.2 (by simp only [height]; omega)
      (by have := upright.1.2; simp only [Frame.sibling, height] at this ⊢; omega) cleanRun
    refine ⟨rootOf (bubble (frame :: frames) (node up nil (node victim left right))),
      after.setLeft up pointer, ?_, update_self _ _ _⟩
    rw [← staleRun, parentOf, if_neg cleanAbove.1.1]
    congr 1
    have hookedNow : hooked = (hooked.setLeft up 0).setLeft up pointer := by
      unfold setLeft
      dsimp only
      rw [update_idem, ← stillHung, update_eq_self]
    have hookedChild : hooked.Hooked (frame :: frames) up :=
      (childIs.outside same crossing).hooked (rest.outside same crossing) upNonzero upAway
    cases frame with
    | left near other =>
      change (if up = hooked.left near then _ else _) = _
      rw [if_pos (Eq.symm hookedChild)]
      have nearOther : near ≠ up := frameOther
      change hooked.setLeft near up = ((hooked.setLeft up 0).setLeft near up).setLeft up pointer
      rw [setLeft_comm nearOther, ← hookedNow]
    | right near other =>
      change (if up = hooked.left near then _ else _) = _
      rw [if_neg (Ne.symm hookedChild)]
      change hooked.setRight near up =
        ((hooked.setLeft up 0).setLeft up pointer).setRight near up
      rw [← hookedNow]

/-- The nodes above and below the misplaced successor: it and some of the old ones. -/
theorem misplaced_nodes (frames : List (Frame Nat)) (up victim pointer : Nat)
    (sibling left right : BinaryTree Nat) :
    ∃ kept, kept.Sublist ((node pointer left right).inorder ++
        surroundings (.left up sibling :: frames)) ∧
      (plug frames (node up nil (node victim left right))).inorder.Perm (victim :: kept) := by
  refine ⟨left.inorder ++ (right.inorder ++ up :: surroundings frames), ?_, ?_⟩
  · have around : surroundings (.left up sibling :: frames) =
        up :: (sibling.inorder ++ surroundings frames) := rfl
    rw [around, inorder_node, append_assoc, cons_append]
    apply List.Sublist.append_left
    apply List.Sublist.cons
    apply List.Sublist.append_left
    exact List.Sublist.cons_cons _ (sublist_append_right _ _)
  · apply (plug_perm frames _).trans
    have order : (node up nil (node victim left right)).inorder =
        up :: (left.inorder ++ victim :: right.inorder) := rfl
    rw [order, ← append_assoc left.inorder]
    apply perm_middle.symm.trans
    exact perm_middle.append_right _

theorem takePlace_stale {fuel : Nat} {sibling : BinaryTree Nat}
    (linked : store.Linked 0 (plug (.left up sibling :: frames) (node pointer left right)))
    (nodup : (plug (.left up sibling :: frames) (node pointer left right)).inorder.Nodup)
    (victimNonzero : victim ≠ 0)
    (fresh : victim ∉ (plug (.left up sibling :: frames) (node pointer left right)).inorder)
    (callable : ∀ other ∈ victim ::
      (plug (.left up sibling :: frames) (node pointer left right)).inorder,
      store.Callable callbacks other)
    (depths : store.DepthsExact (plug (.left up sibling :: frames) (node pointer left right)))
    (leftPresent : left ≠ nil) (rightPresent : right ≠ nil)
    (leftClose : left.height ≤ right.height + 1) (rightClose : right.height ≤ left.height + 1)
    (upright : Upright (.left up sibling :: frames) (node pointer left right))
    (enough : frames.length < fuel) :
    ∃ root after, avlBubbleUpdateAndBalance callbacks (fuel + 2) victim
        (store.takePlace victim pointer) = .ok (root, after) ∧ after.left up = pointer := by
  obtain ⟨placed, above, touched⟩ :=
    takePlace_linked linked nodup victimNonzero fresh leftPresent rightPresent
  obtain ⟨_, childIs, here⟩ := (linked_plug _ _).mp linked
  have around := Settled.around _ depths
  have perm := plug_perm (.left up sibling :: frames) (node pointer left right)
  obtain ⟨kept, inside, newPerm⟩ := misplaced_nodes frames up victim pointer sibling left right
  have keptOld : ∀ other ∈ kept,
      other ∈ (plug (.left up sibling :: frames) (node pointer left right)).inorder :=
    fun other member => perm.mem_iff.mpr (inside.subset member)
  have separate := perm.nodup_iff.mp nodup
  have keptNodup := separate.sublist inside
  have parts := nodup_append.mp separate
  have pointerInside : pointer ∈ (node pointer left right).inorder := by simp
  have upAround : up ∈ surroundings (.left up sibling :: frames) := mem_cons_self
  have pointerApart : pointer ∉ left.inorder ++ right.inorder :=
    (nodup_cons.mp (nodup_middle.mp parts.1)).1
  have pointerNotVictim : pointer ≠ victim := by
    intro same
    apply fresh
    rw [← same, perm.mem_iff]
    exact mem_append_left _ pointerInside
  have upNotVictim : up ≠ victim := by
    intro same
    apply fresh
    rw [← same, perm.mem_iff]
    exact mem_append_right _ upAround
  have leftRoot := rootOf_mem leftPresent
  have rightRoot := rootOf_mem rightPresent
  have upFar : up ∉ [victim, rootOf left, rootOf right] := by
    intro member
    simp only [mem_cons, not_mem_nil, or_false] at member
    rcases member with same | same | same
    · exact upNotVictim same
    · exact parts.2.2 (rootOf left) (by simp [leftRoot]) up upAround same.symm
    · exact parts.2.2 (rootOf right) (by simp [rightRoot]) up upAround same.symm
  have pointerFar : pointer ∉ [victim, rootOf left, rootOf right] := by
    intro member
    simp only [mem_cons, not_mem_nil, or_false] at member
    rcases member with same | same | same
    · exact pointerNotVictim same
    · exact pointerApart (mem_append_left _ (same ▸ leftRoot))
    · exact pointerApart (mem_append_right _ (same ▸ rightRoot))
  have newNodup : (plug frames (node up nil (node victim left right))).inorder.Nodup := by
    rw [newPerm.nodup_iff, nodup_cons]
    exact ⟨fun member => fresh (keptOld victim member), keptNodup⟩
  have apart : pointer ∉ (node up nil (node victim left right)).inorder := by
    simp only [inorder_node, inorder_nil, nil_append, mem_append, mem_cons, not_or]
    rw [mem_append, not_or] at pointerApart
    refine ⟨?_, pointerApart.1, pointerNotVictim, pointerApart.2⟩
    intro same
    exact parts.2.2 pointer pointerInside up upAround same
  have newCallable : ∀ other ∈ (plug frames (node up nil (node victim left right))).inorder,
      (store.takePlace victim pointer).Callable callbacks other := by
    intro other member
    unfold Callable
    rw [touched.update]
    apply callable other
    rcases mem_cons.mp (newPerm.mem_iff.mp member) with same | old
    · exact mem_cons.mpr (Or.inl same)
    · exact mem_cons_of_mem _ (keptOld other old)
  exact misplaced_bubbles placed above ((touched.left up upFar).trans childIs) here.1
    ((touched.depth pointer pointerFar).trans (Settled.of_plug _ depths).1.1)
    (takePlace_settled _ _ around.left) (takePlace_settled _ _ around.right)
    (fun frame member => takePlace_settled _ _
      (around.siblings frame (mem_cons_of_mem _ member)))
    newNodup apart newCallable leftClose rightClose upright enough

end Misplaced

end AvlStore

end Fesos
