/-
Freeing on sound states.

The four coalescing cases are one: a keeper grows over the regions behind it,
whose nodes are removed one after the other and pushed on the free list.  A
cached maximum is right again when the keeper lies above a removed node, or when
its children already reach the grown size.
-/

import Fesos.VmaAllocate

set_option autoImplicit false

namespace Fesos

open BinaryTree Library Function
open List hiding nil

def ancestors (pointer : Nat) (shape : BinaryTree Nat) : List Nat :=
  match focus pointer shape with
  | none => []
  | some (frames, _) => frames.map Frame.above

def detachAll (gone : List Nat) (shape : BinaryTree Nat) : Option (BinaryTree Nat) :=
  gone.foldlM (fun shape pointer => detach pointer shape) shape

/-- Some removal updates the keeper on its way up. -/
def refreshes (keeper : Nat) : List Nat → BinaryTree Nat → Prop
  | [], _ => False
  | pointer :: gone, shape =>
    keeper ∈ ancestors pointer shape ∨
      match detach pointer shape with
      | none => False
      | some next => refreshes keeper gone next

instance (keeper : Nat) : ∀ (gone : List Nat) (shape : BinaryTree Nat),
    Decidable (refreshes keeper gone shape)
  | [], _ => .isFalse id
  | pointer :: gone, shape =>
    match found : detach pointer shape with
    | none =>
      decidable_of_iff (keeper ∈ ancestors pointer shape) (by simp [refreshes, found])
    | some next =>
      have : Decidable (refreshes keeper gone next) := instDecidableRefreshes keeper gone next
      decidable_of_iff (keeper ∈ ancestors pointer shape ∨ refreshes keeper gone next)
        (by simp [refreshes, found])

/-- Detaching the nodes right behind one, the last first. -/
theorem detachAll_inorder {keeper : Nat} {removals front back : List Nat} :
    ∀ {shape result : BinaryTree Nat}, shape.inorder.Nodup →
      shape.inorder = front ++ keeper :: (removals.reverse ++ back) →
      detachAll removals shape = some result → result.inorder = front ++ keeper :: back := by
  induction removals with
  | nil =>
    intro shape result _ order detached
    cases detached
    exact order
  | cons pointer removals ih =>
    intro shape result nodup order detached
    unfold detachAll at detached
    rw [foldlM_cons] at detached
    obtain ⟨next, first, rest⟩ := Option.bind_eq_some_iff.mp detached
    have split : shape.inorder = (front ++ keeper :: removals.reverse) ++ pointer :: back := by
      rw [order]
      simp
    have nextOrder := detach_inorder nodup split first
    refine ih ?_ (by rw [nextOrder]; simp) rest
    rw [nextOrder]
    rw [split] at nodup
    exact (nodup_cons.mp (nodup_middle.mp nodup)).2

namespace Vma

section Remove

variable {vma : Vma} {shape : Shapes} {chain loose : List Nat} {tree : KTree}
  {exempt : Nat → Prop} {keeper key : Nat}

/-- Off the way to the removed node the keeper does not occur, so its exemption
is not needed there. -/
theorem settledAround_below {store : AvlStore VmRegion Nat} {frames : List (Frame Nat)}
    {pointer : Nat} {left right : BinaryTree Nat}
    (settled : store.Settled (SummaryExact (fun address => exempt address ∨ address = key))
      (plug frames (node pointer left right)))
    (nodup : (plug frames (node pointer left right)).inorder.Nodup)
    (keyed : ∀ other ∈ (plug frames (node pointer left right)).inorder,
      (store.data other).startAddr = key → other = keeper)
    (upper : keeper ∈ frames.map Frame.above) :
    AvlStore.SettledAround (SummaryExact exempt) store frames left right := by
  obtain ⟨frame, frameIn, is⟩ := mem_map.mp upper
  have perm := plug_perm frames (node pointer left right)
  obtain ⟨_, aroundNodup, apart⟩ := nodup_append.mp (perm.nodup_iff.mp nodup)
  have keeperAround : keeper ∈ surroundings frames :=
    mem_flatMap.mpr ⟨frame, frameIn, by rw [is]; exact mem_cons_self⟩
  have drop : ∀ part : BinaryTree Nat, keeper ∉ part.inorder →
      (∀ other ∈ part.inorder, other ∈ (plug frames (node pointer left right)).inorder) →
      store.Settled (SummaryExact (fun address => exempt address ∨ address = key)) part →
      store.Settled (SummaryExact exempt) part := by
    intro part absent inside partSettled
    refine partSettled.weaken (fun other member _ _ _ met => ?_)
    rcases met with (exempted | isKey) | exactly
    · exact Or.inl exempted
    · exact absurd (keyed other (inside other member) isKey ▸ member) absent
    · exact Or.inr exactly
  have around := settled.around frames
  refine ⟨drop left ?_ ?_ around.left, drop right ?_ ?_ around.right, ?_⟩
  · exact fun inLeft => apart keeper (by simp [inLeft]) keeper keeperAround rfl
  · exact fun other inLeft => perm.mem_iff.mpr (mem_append_left _ (by simp [inLeft]))
  · exact fun inRight => apart keeper (by simp [inRight]) keeper keeperAround rfl
  · exact fun other inRight => perm.mem_iff.mpr (mem_append_left _ (by simp [inRight]))
  · intro other otherIn
    refine drop other.sibling ?_ ?_ (around.siblings other otherIn)
    · rw [← is]
      exact above_not_sibling aroundNodup frameIn otherIn
    · intro item inSibling
      exact perm.mem_iff.mpr (mem_append_right _
        (mem_flatMap.mpr ⟨other, otherIn, mem_cons_of_mem _ inSibling⟩))

theorem summaryExact_more (region : VmRegion) (left right : Option Nat) (summary : Nat)
    (met : SummaryExact exempt region left right summary) :
    SummaryExact (fun address => exempt address ∨ address = key) region left right summary :=
  met.imp_left Or.inl

/-- One removal; the summaries are exact afterwards if they were, or if the
removed node lies below the keeper. -/
theorem remove_step {pointer : Nat} {gone : List Nat} {next : BinaryTree Nat}
    (layout : vma.Layout shape chain loose) (short : (shape tree).inorder.length + 2 < treeFuel)
    (settled : vma.nodes.Settled (SummaryExact (fun address => exempt address ∨ address = key))
      (shape tree))
    (keyed : ∀ other ∈ (shape tree).inorder, vma.startOf other = key → other = keeper)
    (fresh : vma.nodes.Settled (SummaryExact exempt) (shape tree) ∨
      refreshes keeper (pointer :: gone) (shape tree))
    (detached : detach pointer (shape tree) = some next) :
    ∃ nodes, removeFromTree tree pointer vma = .ok (vma.setTree tree (rootOf next) nodes) ∧
      (vma.setTree tree (rootOf next) nodes).Layout (Function.update shape tree next) chain
        (pointer :: loose) ∧
      nodes.Settled (SummaryExact (fun address => exempt address ∨ address = key)) next ∧
      (nodes.Settled (SummaryExact exempt) next ∨ refreshes keeper gone next) ∧
      AvlStore.SameOutside (shape tree).inorder vma.nodes nodes := by
  have nodup := layout.tree_nodup tree
  obtain ⟨_, frames, left, right, found⟩ := focus_of_detach detached
  rw [focus_plug found] at settled nodup keyed
  have around : AvlStore.SettledAround (SummaryExact exempt) vma.nodes frames left right ∨
      refreshes keeper gone next := by
    rcases fresh with already | above | later
    · rw [focus_plug found] at already
      exact Or.inl (already.around frames)
    · rw [ancestors, found] at above
      exact Or.inl (settledAround_below settled nodup keyed above)
    · rw [detached] at later
      exact Or.inr later
  rcases around with exactly | later
  · obtain ⟨nodes, run, newLayout, newSettled, same⟩ := remove_layout
      (summaryExact_update exempt) layout found exactly detached short
    exact ⟨nodes, run, newLayout,
      newSettled.weaken (fun _ _ _ _ _ met => summaryExact_more _ _ _ _ met), Or.inl newSettled,
      same⟩
  · obtain ⟨nodes, run, newLayout, newSettled, same⟩ := remove_layout
      (summaryExact_update _) layout found (settled.around frames) detached short
    exact ⟨nodes, run, newLayout, newSettled, Or.inr later, same⟩

theorem detach_subset {pointer : Nat} {before result : BinaryTree Nat}
    (nodup : before.inorder.Nodup) (detached : detach pointer before = some result) :
    result.inorder.Sublist before.inorder := by
  obtain ⟨front, back, order⟩ := append_of_mem (focus_of_detach detached).1
  rw [detach_inorder nodup order detached, order]
  simp

/-- All removals of a free, one after the other. -/
theorem removeAll_layout (gone : List Nat) : ∀ {vma : Vma} {shape : Shapes} {loose : List Nat},
    vma.Layout shape chain loose → (shape tree).inorder.length + 2 < treeFuel →
    vma.nodes.Settled (SummaryExact (fun address => exempt address ∨ address = key)) (shape tree) →
    (∀ other ∈ (shape tree).inorder, vma.startOf other = key → other = keeper) →
    (vma.nodes.Settled (SummaryExact exempt) (shape tree) ∨ refreshes keeper gone (shape tree)) →
    ∀ {result : BinaryTree Nat}, detachAll gone (shape tree) = some result →
    ∃ nodes, gone.foldlM (fun vma pointer => removeFromTree tree pointer vma) vma =
        .ok (vma.setTree tree (rootOf result) nodes) ∧
      (vma.setTree tree (rootOf result) nodes).Layout (Function.update shape tree result) chain
        (gone.reverse ++ loose) ∧
      nodes.Settled (SummaryExact exempt) result ∧
      AvlStore.SameOutside (shape tree).inorder vma.nodes nodes := by
  induction gone with
  | nil =>
    intro vma shape loose layout _ _ _ fresh result detached
    cases detached
    rcases fresh with settled | impossible
    · have state : vma.setTree tree (rootOf (shape tree)) vma.nodes = vma := by
        rw [← layout.rooted]
        cases tree <;> rfl
      refine ⟨vma.nodes, ?_, ?_, settled, .refl _ _⟩
      · rw [state]
        rfl
      · rw [state, update_eq_self]
        exact layout
    · exact impossible.elim
  | cons pointer gone ih =>
    intro vma shape loose layout short settled keyed fresh result detached
    unfold detachAll at detached
    rw [foldlM_cons] at detached
    obtain ⟨next, first, rest⟩ := Option.bind_eq_some_iff.mp detached
    obtain ⟨nodes, run, newLayout, newSettled, newFresh, same⟩ :=
      remove_step layout short settled keyed fresh first
    have fewer := detach_subset (layout.tree_nodup tree) first
    have length := fewer.length_le
    have here : Function.update shape tree next tree = next := update_self _ _ _
    obtain ⟨final, runRest, finalLayout, finalSettled, finalSame⟩ := ih newLayout
      (by rw [here]; omega) (by rw [here, setTree_nodes]; exact newSettled)
      (by
        intro other member startIs
        rw [here] at member
        refine keyed other (fewer.subset member) ?_
        rw [startOf, region, setTree_nodes, same.data] at startIs
        exact startIs)
      (by rw [here, setTree_nodes]; exact newFresh) (by rw [here]; exact rest)
    have state : (vma.setTree tree (rootOf next) nodes).setTree tree (rootOf result) final =
        vma.setTree tree (rootOf result) final := by cases tree <;> rfl
    rw [state, update_idem] at finalLayout
    rw [state] at runRest
    rw [here, setTree_nodes] at finalSame
    refine ⟨final, ?_, ?_, finalSettled, same.trans (finalSame.mono fewer.subset)⟩
    · rw [foldlM_cons, run, ok_bind]
      exact runRest
    · rw [reverse_cons, append_assoc]
      exact finalLayout

end Remove

/-! ### The regions after a free -/

/-- The keeper is free and covers the regions that are gone; no other region
changed. -/
structure Coalesced (vma after : Vma) (keeper : Nat) (gone : List Nat) : Prop where
  keeperStart : after.startOf keeper = vma.startOf keeper
  keeperSize : after.sizeOf keeper = vma.sizeOf keeper + (gone.map vma.sizeOf).sum
  keeperFree : (after.region keeper).type = .free
  others : ∀ other, other ≠ keeper → after.region other = vma.region other
  slabs : after.slabPages = vma.slabPages

section Regions

variable {vma after : Vma} {shape : Shapes} {chain loose front back gone : List Nat} {tree : KTree}
  {keeper freed : Nat} {result : BinaryTree Nat}
  (coalesced : Coalesced vma after keeper gone)
  (order : (shape tree).inorder = front ++ keeper :: (gone ++ back))
  (newOrder : result.inorder = front ++ keeper :: back)
  (involved : ∀ other ∈ keeper :: gone, (vma.region other).type = .free ∨ other = freed)
  (layout : vma.Layout shape chain loose) (tiled : vma.Geometry shape)

include coalesced order layout

theorem Coalesced.elsewhere {owner : KTree} (different : owner ≠ tree) {other : Nat}
    (member : other ∈ (shape owner).inorder) : after.region other = vma.region other := by
  refine coalesced.others other (fun same => ?_)
  refine layout.trees_apart different ?_ member
  rw [same, order]
  simp

omit coalesced in
theorem Coalesced.outside {other : Nat} (member : other ∈ front ++ back) :
    other ∉ keeper :: gone := by
  have nodup := layout.tree_nodup tree
  rw [order, nodup_append, nodup_cons, nodup_append] at nodup
  rw [mem_append] at member
  rw [mem_cons]
  grind

theorem Coalesced.rest {other : Nat} (member : other ∈ front ++ back) :
    after.region other = vma.region other :=
  coalesced.others other
    (ne_of_not_mem_cons (Coalesced.outside order layout member))

omit coalesced layout in
theorem Coalesced.mem_before {other : Nat} :
    other ∈ (shape tree).inorder ↔ other ∈ front ++ back ∨ other ∈ keeper :: gone := by
  rw [order]
  simp only [mem_append, mem_cons]
  tauto

include newOrder

omit coalesced order layout in
theorem Coalesced.mem_after {other : Nat} :
    other ∈ result.inorder ↔ other ∈ front ++ back ∨ other = keeper := by
  rw [newOrder]
  simp only [mem_append, mem_cons]
  tauto

include involved tiled

theorem Coalesced.geometry (notSlab : vma.startOf freed ∉ vma.slabPages) :
    after.Geometry (Function.update shape tree result) := by
  have rest : ∀ other ∈ front ++ back, after.region other = vma.region other :=
    fun other member => coalesced.rest order layout member
  have pages : ∀ other, _ → vma.sizeOf other % 4096 = 0 := fun other member =>
    tiled.pages tree other ((Coalesced.mem_before order).mpr member)
  refine tiled.replace (fun other different item inOther =>
    coalesced.elsewhere order layout different inOther) coalesced.slabs ?_ ?_ ?_
  · rw [newOrder]
    have tiles := tiled.tiles tree
    rw [order] at tiles
    exact tiles.absorb coalesced.keeperStart coalesced.keeperSize
      (fun other member => congrArg VmRegion.startAddr (rest other member))
      (fun other member => congrArg VmRegion.size (rest other member))
  · intro other inResult
    rcases (Coalesced.mem_after newOrder).mp inResult with inRest | isKeeper
    · rw [sizeOf, rest other inRest]
      exact pages other (Or.inl inRest)
    · have goneWhole : 4096 ∣ (gone.map vma.sizeOf).sum := by
        refine dvd_sum (fun size member => ?_)
        obtain ⟨item, inGone, is⟩ := mem_map.mp member
        rw [← is]
        exact Nat.dvd_of_mod_eq_zero (pages item (Or.inr (mem_cons_of_mem _ inGone)))
      have keeperWhole := Nat.dvd_of_mod_eq_zero (pages keeper (Or.inr mem_cons_self))
      rw [isKeeper, coalesced.keeperSize]
      exact Nat.mod_eq_zero_of_dvd (Nat.dvd_add keeperWhole goneWhole)
  · intro other inTree inSlabs busy
    rcases (Coalesced.mem_before order).mp inTree with inRest | inside
    · exact ⟨(Coalesced.mem_after newOrder).mpr (Or.inl inRest), rest other inRest⟩
    · rcases involved other inside with free | isFreed
      · exact absurd free busy
      · exact absurd (isFreed ▸ inSlabs) notSlab

theorem Coalesced.inUse (freedIn : freed ∈ keeper :: gone) {owner : KTree} {first amount : Nat} :
    after.InUse (Function.update shape tree result) owner first amount ↔
      vma.InUse shape owner first amount ∧
        ¬ (owner = tree ∧ first = vma.startOf freed ∧ amount = vma.sizeOf freed) := by
  by_cases here : owner = tree
  · rw [here]
    have freedTree := (Coalesced.mem_before order).mpr (Or.inr freedIn)
    constructor
    · rintro ⟨other, inResult, startIs, sizeIs, used⟩
      rw [update_self, Coalesced.mem_after newOrder] at inResult
      have member : other ∈ front ++ back := by
        refine inResult.resolve_right (fun same => ?_)
        rw [same] at used
        exact used coalesced.keeperFree
      have same := coalesced.rest order layout member
      have inTree := (Coalesced.mem_before order).mpr (Or.inl member)
      rw [startOf, same] at startIs
      rw [sizeOf, same] at sizeIs
      rw [same] at used
      refine ⟨⟨other, inTree, startIs, sizeIs, used⟩, ?_⟩
      rintro ⟨-, startFreed, -⟩
      have isFreed := tiled.eq_of_start inTree freedTree (startIs.trans startFreed)
      exact Coalesced.outside order layout member (isFreed ▸ freedIn)
    · rintro ⟨⟨other, inTree, startIs, sizeIs, used⟩, notFreed⟩
      have outside : other ∉ keeper :: gone := by
        intro inside
        rcases involved other inside with free | isFreed
        · exact used free
        · rw [isFreed] at startIs sizeIs
          exact notFreed ⟨rfl, startIs.symm, sizeIs.symm⟩
      have member := ((Coalesced.mem_before order).mp inTree).resolve_right outside
      rw [InUse, update_self]
      refine ⟨other, (Coalesced.mem_after newOrder).mpr (Or.inl member), ?_⟩
      rw [startOf, sizeOf, coalesced.rest order layout member]
      exact ⟨startIs, sizeIs, used⟩
  · rw [InUse.other (fun other different item inOther =>
      coalesced.elsewhere order layout different inOther) here]
    constructor
    · exact fun before => ⟨before, fun same => here same.1⟩
    · exact fun both => both.1

end Regions

/-! ### Giving the removed nodes back -/

section Push

variable {vma : Vma} {shape : Shapes} {chain loose : List Nat}
  {goal : SummaryGoal VmRegion Nat}

theorem freeVmDsNode_sound {node : Nat} (sound : vma.Sound goal shape chain (node :: loose)) :
    (vma.freeVmDsNode node).Sound goal shape (node :: chain) loose ∧
      ∀ owner, ∀ other ∈ (shape owner).inorder,
        (vma.freeVmDsNode node).region other = vma.region other := by
  have few := sound.layout.chain_few sound.geometry
  have nonzero := sound.layout.ne_zero sound.geometry
    (mem_nodesOf.mpr (Or.inr (Or.inr mem_cons_self)) :
      node ∈ nodesOf shape chain (node :: loose))
  exact sound.rechain (setData_elsewhere _ _ _)
    (fun owner => apart_singleton (fun member => sound.layout.not_loose member mem_cons_self))
    (freeVmDsNode_layout sound.layout nonzero (by omega)) rfl

theorem freeAll_sound (gone : List Nat) : ∀ {vma : Vma} {chain : List Nat},
    vma.Sound goal shape chain (gone ++ loose) →
      (gone.foldl freeVmDsNode vma).Sound goal shape (gone.reverse ++ chain) loose ∧
        (∀ owner, ∀ other ∈ (shape owner).inorder,
          (gone.foldl freeVmDsNode vma).region other = vma.region other) ∧
        (gone.foldl freeVmDsNode vma).slabPages = vma.slabPages ∧
        (gone.foldl freeVmDsNode vma).inReplenishCycle = vma.inReplenishCycle := by
  induction gone with
  | nil => exact fun sound => ⟨sound, fun _ _ _ => rfl, rfl, rfl⟩
  | cons node gone ih =>
    intro vma chain sound
    obtain ⟨pushed, regions⟩ := freeVmDsNode_sound sound
    obtain ⟨final, finalRegions, slabs, flag⟩ := ih pushed
    refine ⟨?_, ?_, slabs, flag⟩
    · rw [reverse_cons, append_assoc]
      exact final
    · intro owner other member
      rw [foldl_cons, finalRegions owner other member, regions owner other member]

end Push

/-! ### The four cases as one -/

def grownRegion (vma : Vma) (keeper : Nat) (removals : List Nat) : VmRegion :=
  { vma.region keeper with
    size := vma.sizeOf keeper + (removals.map vma.sizeOf).sum
    type := .free }

def absorb (tree : KTree) (keeper : Nat) (removals : List Nat) (vma : Vma) : Except Fault Vma := do
  let removed ← removals.foldlM (fun vma pointer => removeFromTree tree pointer vma)
    (vma.setRegion keeper (vma.grownRegion keeper removals))
  pure (removals.reverse.foldl freeVmDsNode removed)

/-- The node that stays and the nodes to remove, in the order the code does. -/
def coalescing (vma : Vma) (front back : List Nat) (node : Nat) : Nat × List Nat :=
  match front.getLast?.filter (fun before => (vma.region before).type = .free),
      back.head?.filter (fun behind => (vma.region behind).type = .free) with
  | some before, some behind => (before, [behind, node])
  | some before, none => (before, [node])
  | none, some behind => (node, [behind])
  | none, none => (node, [])

section Plan

variable {vma : Vma} {shape : Shapes} {chain loose front back : List Nat} {tree : KTree}
  {node : Nat}

theorem free_last {free : Nat → Bool} {items : List Nat} {last : Nat}
    (is : items.getLast?.filter free = some last) :
    (∃ front, items = front ++ [last]) ∧ free last = true := by
  obtain ⟨lastIs, isFree⟩ := Option.filter_eq_some_iff.mp is
  exact ⟨getLast?_eq_some_iff.mp lastIs, isFree⟩

theorem free_head {free : Nat → Bool} {items : List Nat} {first : Nat}
    (is : items.head?.filter free = some first) :
    (∃ back, items = first :: back) ∧ free first = true := by
  obtain ⟨firstIs, isFree⟩ := Option.filter_eq_some_iff.mp is
  exact ⟨head?_eq_some_iff.mp firstIs, isFree⟩

/-- The regions a free touches lie next to each other, and all but the freed one
are free. -/
theorem coalescing_order (vma : Vma) (front back : List Nat) (node : Nat) :
    ∃ newFront newBack, front ++ node :: back =
        newFront ++ (vma.coalescing front back node).1 ::
          ((vma.coalescing front back node).2.reverse ++ newBack) ∧
      node ∈ (vma.coalescing front back node).1 :: (vma.coalescing front back node).2.reverse ∧
      ∀ other ∈ (vma.coalescing front back node).1 :: (vma.coalescing front back node).2.reverse,
        (vma.region other).type = .free ∨ other = node := by
  unfold coalescing
  split
  · rename_i before behind beforeIs behindIs
    obtain ⟨⟨newFront, rfl⟩, beforeFree⟩ := free_last beforeIs
    obtain ⟨⟨newBack, rfl⟩, behindFree⟩ := free_head behindIs
    exact ⟨newFront, newBack, by simp, by simp,
      by simp [of_decide_eq_true beforeFree, of_decide_eq_true behindFree]⟩
  · rename_i before beforeIs _
    obtain ⟨⟨newFront, rfl⟩, beforeFree⟩ := free_last beforeIs
    exact ⟨newFront, back, by simp, by simp, by simp [of_decide_eq_true beforeFree]⟩
  · rename_i behind _ behindIs
    obtain ⟨⟨newBack, rfl⟩, behindFree⟩ := free_head behindIs
    exact ⟨front, newBack, by simp, by simp, by simp [of_decide_eq_true behindFree]⟩
  · exact ⟨front, back, by simp, by simp, fun other member => Or.inr (by simpa using member)⟩

theorem grown_small (geometry : vma.Geometry shape)
    (order : (shape tree).inorder = front ++ node :: back) :
    vma.sizeOf (vma.coalescing front back node).1 +
      ((vma.coalescing front back node).2.map vma.sizeOf).sum < 2 ^ 64 := by
  obtain ⟨newFront, newBack, is, _⟩ := vma.coalescing_order front back node
  have total := (Tiles.iff_covers.mp (geometry.tiles tree)).1.sum_eq
  rw [order, is] at total
  simp only [map_append, map_cons, map_reverse, sum_append, sum_cons,
    sum_reverse] at total
  have limit := treeLimit_lt tree
  omega

theorem isFree_getD {neighbour : Option Nat} (nonzero : ∀ other ∈ neighbour, other ≠ 0) :
    vma.isFree (neighbour.getD 0) =
      (neighbour.filter (fun other => (vma.region other).type = .free)).isSome := by
  cases neighbour with
  | none => rfl
  | some other =>
    have present := nonzero other rfl
    unfold isFree
    by_cases free : (vma.region other).type = .free
    · simp [present, free]
    · simp [free]

theorem grownRegion_eq {keeper amount : Nat} {removals : List Nat}
    (small : vma.sizeOf keeper + (removals.map vma.sizeOf).sum < 2 ^ 64)
    (total : amount = vma.sizeOf keeper + (removals.map vma.sizeOf).sum) :
    vma.grownRegion keeper removals =
      { vma.region keeper with size := word amount, type := .free } := by
  unfold grownRegion
  rw [total, word_of_lt small]

theorem coalesce_absorbs {goal : SummaryGoal VmRegion Nat}
    (sound : vma.Sound goal shape chain loose)
    (order : (shape tree).inorder = front ++ node :: back) :
    coalesce tree node (back.head?.getD 0) (front.getLast?.getD 0) vma =
      vma.absorb tree (vma.coalescing front back node).1 (vma.coalescing front back node).2 := by
  have nonzero : ∀ other ∈ (shape tree).inorder, other ≠ 0 := fun other member =>
    sound.layout.ne_zero sound.geometry (mem_nodesOf.mpr (Or.inl ⟨tree, member⟩))
  have small := grown_small sound.geometry order
  have behindFree : vma.isFree (back.head?.getD 0) = _ := isFree_getD (fun other head =>
    nonzero other (by rw [order]; simp [mem_of_mem_head? head]))
  have beforeFree : vma.isFree (front.getLast?.getD 0) = _ := isFree_getD (fun other last =>
    nonzero other (by rw [order]; simp [mem_of_mem_getLast? last]))
  unfold coalesce
  rw [behindFree, beforeFree]
  unfold coalescing at small ⊢
  split at small
  · rename_i before behind beforeIs behindIs
    obtain ⟨⟨_, rfl⟩, free⟩ := free_last beforeIs
    obtain ⟨⟨_, rfl⟩, _⟩ := free_head behindIs
    have total : (vma.region behind).size + (vma.region before).size + (vma.region node).size =
        vma.sizeOf before + ([behind, node].map vma.sizeOf).sum := by
      simp only [map_cons, map_nil, sum_cons, sum_nil, sizeOf]
      omega
    rw [beforeIs, behindIs]
    unfold absorb
    rw [grownRegion_eq small total, ← of_decide_eq_true free]
    simp
  · rename_i before beforeIs behindIs
    obtain ⟨⟨_, rfl⟩, free⟩ := free_last beforeIs
    rw [beforeIs, behindIs]
    unfold absorb
    rw [grownRegion_eq small rfl, ← of_decide_eq_true free]
    simp [sizeOf]
  · rename_i behind beforeIs behindIs
    obtain ⟨⟨_, rfl⟩, _⟩ := free_head behindIs
    rw [beforeIs, behindIs]
    unfold absorb
    rw [grownRegion_eq small (Nat.add_comm _ _)]
    simp [sizeOf]
  · rename_i beforeIs behindIs
    rw [beforeIs, behindIs]
    unfold absorb grownRegion
    simp [sizeOf]
    rfl

end Plan

section Absorb

variable {vma : Vma} {shape : Shapes} {chain front back removals : List Nat} {tree : KTree}
  {keeper freed : Nat} {result : BinaryTree Nat} {exempt : Nat → Prop}

theorem grown_settled (settled : vma.nodes.Settled (SummaryExact exempt) (shape tree)) :
    (vma.setRegion keeper (vma.grownRegion keeper removals)).nodes.Settled
      (SummaryExact (fun address => exempt address ∨ address = vma.startOf keeper)) (shape tree) :=
  (settled.weaken (fun _ _ _ _ _ met => summaryExact_more _ _ _ _ met)).setData
    (fun _ _ _ _ => Or.inl (Or.inr rfl))

theorem absorb_sound (sound : vma.Sound (SummaryExact exempt) shape chain [])
    (order : (shape tree).inorder = front ++ keeper :: (removals.reverse ++ back))
    (involved : ∀ other ∈ keeper :: removals.reverse,
      (vma.region other).type = .free ∨ other = freed)
    (freedIn : freed ∈ keeper :: removals.reverse)
    (notSlab : vma.startOf freed ∉ vma.slabPages)
    (detached : detachAll removals (shape tree) = some result)
    (fresh : (∀ parts ∈ focus keeper (shape tree),
        SummaryExact exempt (vma.grownRegion keeper removals) (vma.nodes.top parts.2.1)
          (vma.nodes.top parts.2.2) (vma.nodes.summary keeper)) ∨
      refreshes keeper removals (shape tree)) :
    ∃ after, vma.absorb tree keeper removals = .ok after ∧
      after.Sound (SummaryExact exempt) (Function.update shape tree result) (removals ++ chain) [] ∧
      (∀ owner first amount, after.InUse (Function.update shape tree result) owner first amount ↔
        vma.InUse shape owner first amount ∧
          ¬ (owner = tree ∧ first = vma.startOf freed ∧ amount = vma.sizeOf freed)) ∧
      after.slabPages = vma.slabPages ∧ after.inReplenishCycle = vma.inReplenishCycle := by
  have layout := sound.layout
  have member : keeper ∈ (shape tree).inorder := by
    rw [order]
    simp
  have grownLayout := layout.setRegion (layout.not_chain member) (vma.grownRegion keeper removals)
  have regions := fun other => vma.setRegion_region keeper other (vma.grownRegion keeper removals)
  have keyed : ∀ other ∈ (shape tree).inorder,
      (vma.setRegion keeper (vma.grownRegion keeper removals)).startOf other =
        vma.startOf keeper → other = keeper := by
    intro other inTree startIs
    by_contra different
    rw [startOf, regions, if_neg different] at startIs
    exact different (sound.geometry.eq_of_start inTree member startIs)
  have nowFresh : (vma.setRegion keeper (vma.grownRegion keeper removals)).nodes.Settled
      (SummaryExact exempt) (shape tree) ∨ refreshes keeper removals (shape tree) :=
    fresh.imp_left (fun met => (sound.settled tree).setData (fun frames left right is =>
      met (frames, left, right) (focus_of_plug (layout.tree_nodup tree) is)))
  obtain ⟨nodes, run, newLayout, settled, same⟩ := removeAll_layout removals grownLayout
    (sound.geometry.short tree) (grown_settled (sound.settled tree)) keyed nowFresh detached
  have newOrder := detachAll_inorder (layout.tree_nodup tree) order detached
  have afterRegions : ∀ other, ((vma.setRegion keeper (vma.grownRegion keeper removals)).setTree tree
      (rootOf result) nodes).region other =
      if other = keeper then vma.grownRegion keeper removals else vma.region other := by
    intro other
    rw [← regions, region, setTree_nodes, same.data]
    rfl
  have coalesced : Coalesced vma ((vma.setRegion keeper (vma.grownRegion keeper removals)).setTree
      tree (rootOf result) nodes) keeper removals.reverse := by
    refine ⟨?_, ?_, ?_, ?_, setTree_slabPages _ _ _ _⟩
    · rw [startOf, afterRegions, if_pos rfl]
      rfl
    · rw [sizeOf, afterRegions, if_pos rfl, map_reverse, sum_reverse]
      rfl
    · rw [afterRegions, if_pos rfl]
      rfl
    · intro other different
      rw [afterRegions, if_neg different]
  have middle : ((vma.setRegion keeper (vma.grownRegion keeper removals)).setTree tree
      (rootOf result) nodes).Sound (SummaryExact exempt) (Function.update shape tree result) chain
      (removals.reverse ++ []) := by
    have touched : Elsewhere (shape tree).inorder vma.nodes nodes :=
      ((setData_elsewhere _ _ _).mono (cons_subset.mpr ⟨member, nil_subset _⟩)).trans same.elsewhere
    refine ⟨newLayout,
      coalesced.geometry order newOrder involved layout sound.geometry notSlab, ?_⟩
    exact settled_update touched layout.apart_tree sound.settled settled
  obtain ⟨final, finalRegions, slabs, flag⟩ := freeAll_sound removals.reverse middle
  refine ⟨_, ?_, ?_, ?_, slabs.trans (setTree_slabPages _ _ _ _),
    flag.trans (setTree_inReplenishCycle _ _ _ _)⟩
  · unfold absorb
    rw [run, ok_bind]
    rfl
  · rw [reverse_reverse] at final
    exact final
  · intro owner first amount
    rw [InUse.transport (finalRegions owner)]
    exact coalesced.inUse order newOrder involved layout sound.geometry freedIn

end Absorb

/-! ### The free call -/

def beside (node : Nat) (nodes : List Nat) : List Nat × List Nat :=
  (nodes.takeWhile (fun other => decide (other ≠ node)),
    (nodes.dropWhile (fun other => decide (other ≠ node))).tail)

theorem beside_eq {node : Nat} {front back : List Nat} (nodup : (front ++ node :: back).Nodup) :
    beside node (front ++ node :: back) = (front, back) := by
  have apart := (nodup_cons.mp (nodup_middle.mp nodup)).1
  have before : ∀ other ∈ front, decide (other ≠ node) = true := by
    intro other member
    refine decide_eq_true (fun same => apart ?_)
    rw [← same]
    exact mem_append_left _ member
  unfold beside
  rw [takeWhile_append_of_pos before, dropWhile_append_of_pos before]
  simp

def freePlan (vma : Vma) (shape : BinaryTree Nat) (node : Nat) : Nat × List Nat :=
  vma.coalescing (beside node shape.inorder).1 (beside node shape.inorder).2 node

/-- The comparisons find the region, its removals can be detached, and the keeper's
cached maximum is right afterwards. -/
def SafeFree (exempt : Nat → Prop) (vma : Vma) (shape : BinaryTree Nat) (start : Nat) : Prop :=
  vma.OrdersCorrectly shape start ∧ ∀ node ∈ shape.inorder, vma.startOf node = start →
    (detachAll (vma.freePlan shape node).2 shape).isSome ∧
      ((∀ parts ∈ focus (vma.freePlan shape node).1 shape,
          SummaryExact exempt
            (vma.grownRegion (vma.freePlan shape node).1 (vma.freePlan shape node).2)
            (vma.nodes.top parts.2.1) (vma.nodes.top parts.2.2)
            (vma.nodes.summary (vma.freePlan shape node).1)) ∨
        refreshes (vma.freePlan shape node).1 (vma.freePlan shape node).2 shape)

instance (exempt : Nat → Prop) [DecidablePred exempt] (vma : Vma) (shape : BinaryTree Nat)
    (start : Nat) : Decidable (vma.SafeFree exempt shape start) :=
  inferInstanceAs (Decidable (_ ∧ ∀ node ∈ shape.inorder, _ → _ ∧ (_ ∨ _)))

/-- Both kernel trees as their links hold them, low enough for every walk to end. -/
structure KernelTrees (vma : Vma) (shape : Shapes) : Prop where
  rooted : ∀ tree, vma.root tree = rootOf (shape tree)
  linked : ∀ tree, vma.nodes.Linked 0 (shape tree)
  distinct : ∀ tree, (shape tree).inorder.Nodup
  short : ∀ tree, (shape tree).height < treeFuel

theorem Sound.kernelTrees {goal : SummaryGoal VmRegion Nat} {vma : Vma}
    {shape : Shapes} {chain loose : List Nat} (sound : vma.Sound goal shape chain loose) :
    vma.KernelTrees shape where
  rooted := sound.layout.rooted
  linked := sound.layout.linked
  distinct := sound.layout.tree_nodup
  short := by
    intro tree
    have tall := height_le_length (shape tree)
    have few := sound.geometry.short tree
    omega

def LeadsTo (vma : Vma) (shape : BinaryTree Nat) (startAddr node : Nat) : Prop :=
  shape.Reached (fun other => vmAvlCompAddr startAddr (vma.region other)) node ∧
    vmAvlCompAddr startAddr (vma.region node) = 0

instance (vma : Vma) (shape : BinaryTree Nat) (startAddr node : Nat) :
    Decidable (vma.LeadsTo shape startAddr node) :=
  inferInstanceAs (Decidable (_ ∧ _))

section Found

variable {vma : Vma} {shape : Shapes} {tree : KTree} {startAddr node : Nat}
  {front back : List Nat}

theorem LeadsTo.member {shape : BinaryTree Nat} (leads : vma.LeadsTo shape startAddr node) :
    node ∈ shape.inorder :=
  (search_some (search_eq_some_iff.mpr leads)).1

theorem LeadsTo.congr {other : Vma} {shape : BinaryTree Nat}
    (same : ∀ node, other.startOf node = vma.startOf node) :
    other.LeadsTo shape startAddr node ↔ vma.LeadsTo shape startAddr node := by
  have comparisons : ∀ node, vmAvlCompAddr startAddr (other.region node) =
      vmAvlCompAddr startAddr (vma.region node) := by
    intro node
    unfold vmAvlCompAddr
    rw [show (other.region node).startAddr = (vma.region node).startAddr from same node]
  unfold LeadsTo
  rw [funext comparisons, comparisons node]

theorem KernelTrees.free_missed (trees : vma.KernelTrees shape)
    (missed : ∀ node ∈ (shape tree).inorder, ¬ vma.LeadsTo (shape tree) startAddr node) :
    vmaFreeMemoryFromTree tree startAddr vma = .error .nullDereference := by
  unfold vmaFreeMemoryFromTree
  rw [trees.rooted, AvlStore.avlGetNode_search _ (trees.linked tree) (trees.short tree)]
  cases found : (shape tree).search (fun other => vmAvlCompAddr startAddr (vma.nodes.data other)) with
  | none => rfl
  | some node =>
    exact absurd (search_eq_some_iff.mp found) (missed node (search_some found).1)

/-- A search that ends at a region undoes its mapping and coalesces it. -/
theorem KernelTrees.free_found (trees : vma.KernelTrees shape)
    (leads : vma.LeadsTo (shape tree) startAddr node)
    (order : (shape tree).inorder = front ++ node :: back) :
    vmaFreeMemoryFromTree tree startAddr vma =
      unback (vma.region node) vma.vmm >>= fun vmm =>
        coalesce tree node (back.head?.getD 0) (front.getLast?.getD 0) { vma with vmm := vmm } := by
  have nonzero : node ≠ 0 := (trees.linked tree).ne_zero leads.member
  have found : (shape tree).search (fun other => vmAvlCompAddr startAddr (vma.nodes.data other)) =
      some node := search_eq_some_iff.mpr leads
  have successor : AvlStore.avlNext treeFuel node vma.nodes = .ok (back.head?.getD 0) := by
    unfold AvlStore.avlNext
    rw [if_neg nonzero]
    exact AvlStore.avlGetSuccessor_next (trees.linked tree) (trees.distinct tree) order
      (trees.short tree)
  have predecessor : AvlStore.avlPrev treeFuel node vma.nodes = .ok (front.getLast?.getD 0) := by
    unfold AvlStore.avlPrev
    rw [if_neg nonzero]
    exact AvlStore.avlGetPredecessor_prev (trees.linked tree) (trees.distinct tree) order
      (trees.short tree)
  unfold vmaFreeMemoryFromTree
  rw [trees.rooted, AvlStore.avlGetNode_search _ (trees.linked tree) (trees.short tree), found,
    ok_bind, Option.getD_some, if_neg nonzero]
  dsimp only
  rw [successor]
  simp only [ok_bind, predecessor]

end Found

section Free

variable {vma after : Vma} {shape : Shapes} {chain loose front back : List Nat} {tree : KTree}
  {live rest : List OwnedRange} {start size node : Nat} {exempt : Nat → Prop}

/-- A range that was in use once and is no longer leaves the account. -/
theorem Accounts.release {newShape : Shapes} {owned : List OwnedRange} {range : OwnedRange}
    (accounts : vma.Accounts shape (range :: owned))
    (inUse : ∀ owner first amount, after.InUse newShape owner first amount ↔
      vma.InUse shape owner first amount ∧
        ¬ (owner = range.tree ∧ first = range.start ∧ amount = range.size)) :
    after.Accounts newShape owned := by
  obtain ⟨absent, once⟩ := nodup_cons.mp accounts.once
  refine ⟨once, fun owner first amount => ?_⟩
  rw [inUse, accounts.inUse, mem_cons]
  have same : ∀ other : OwnedRange, other = range ↔
      other.tree = range.tree ∧ other.start = range.start ∧ other.size = range.size := by
    intro other
    cases other
    cases range
    simp
  rw [same]
  constructor
  · rintro ⟨isRange | inOwned, other⟩
    · exact absurd isRange other
    · exact inOwned
  · intro inOwned
    refine ⟨Or.inr inOwned, fun isRange => absent ?_⟩
    rw [← (same ⟨owner, first, amount⟩).mpr isRange]
    exact inOwned

/-- The search by start address ends at the region, if the comparisons are right. -/
theorem leads_to_node (sound : vma.Sound (SummaryExact exempt) shape chain loose)
    (order : (shape tree).inorder = front ++ node :: back)
    (ordered : vma.OrdersCorrectly (shape tree) (vma.startOf node)) :
    vma.LeadsTo (shape tree) (vma.startOf node) node := by
  have member : ∀ other ∈ front ++ node :: back, other ∈ (shape tree).inorder := by
    intro other inside
    rw [order]
    exact inside
  have sorted := (sound.geometry.tiles tree).pairwise
  rw [order] at sorted
  obtain ⟨_, later, earlier⟩ := pairwise_append.mp sorted
  have hit : vmAvlCompAddr (vma.startOf node) (vma.region node) = 0 :=
    (ordered node (member node (by simp))).2.mpr rfl
  refine search_eq_some_iff.mp (search_found (fun other => vmAvlCompAddr (vma.startOf node)
    (vma.region other)) hit _ order ?_ ?_)
  · intro other inFront
    have inTree := member other (by simp [inFront])
    have signs := ordered other inTree
    have before := earlier other inFront node mem_cons_self
    have room := (sound.geometry.bounds inTree).2.1
    have notPositive : ¬ vmAvlCompAddr (vma.startOf node) (vma.region other) > 0 :=
      fun positive => by
        have := signs.1.mp positive
        omega
    have notZero : ¬ vmAvlCompAddr (vma.startOf node) (vma.region other) = 0 := fun zero => by
      have := signs.2.mp zero
      omega
    change vmAvlCompAddr (vma.startOf node) (vma.region other) < 0
    omega
  · intro other inBack
    have inTree := member other (by simp [inBack])
    have behind := (pairwise_cons.mp later).1 other inBack
    have room := (sound.geometry.bounds (member node (by simp))).2.1
    exact (ordered other inTree).1.mpr (by omega)

theorem Steady.not_slab (steady : vma.Steady exempt shape chain live)
    (member : ⟨tree, start, size⟩ ∈ live) (inTree : node ∈ (shape tree).inorder)
    (startIs : vma.startOf node = start) (sizeIs : vma.sizeOf node = size) :
    start ∉ vma.slabPages := by
  intro inSlabs
  have geometry := steady.sound.geometry
  cases tree with
  | heap =>
    obtain ⟨slab, slabIn, slabStart, slabSize, _⟩ := geometry.slabs start inSlabs
    have same := geometry.eq_of_start slabIn inTree (slabStart.trans startIs.symm)
    rw [same, sizeIs] at slabSize
    rw [slabSize] at member
    exact (nodup_append.mp steady.accounts.once).2.2 _ member _
      (mem_map.mpr ⟨start, inSlabs, rfl⟩) rfl
  | mmio =>
    have low := (geometry.slab_bounds inSlabs).1
    have high := (geometry.bounds inTree).2
    have apart : treeLimit .mmio < kernelHeapStart := by decide
    omega

theorem free_steady (steady : vma.Steady exempt shape chain live)
    (owned : live.Perm (⟨tree, start, size⟩ :: rest))
    (safe : vma.SafeFree exempt (shape tree) start)
    (run : vmaFreeMemoryFromTree tree start vma = .ok after) :
    ∃ newShape newChain, after.Steady exempt newShape newChain rest := by
  have sound := steady.sound
  have member : ⟨tree, start, size⟩ ∈ live := owned.mem_iff.mpr mem_cons_self
  obtain ⟨node, inTree, startIs, sizeIs, _⟩ := (steady.accounts.inUse tree start size).mpr
    (mem_append_left _ member)
  obtain ⟨front, back, order⟩ := append_of_mem inTree
  obtain ⟨ordered, plans⟩ := safe
  have plan := plans node inTree startIs
  have nodup := sound.layout.tree_nodup tree
  rw [order] at nodup
  rw [freePlan, order, beside_eq nodup] at plan
  obtain ⟨goes, fresh⟩ := plan
  obtain ⟨result, detached⟩ := Option.isSome_iff_exists.mp goes
  have notSlab := steady.not_slab member inTree startIs sizeIs
  rw [← startIs] at ordered run
  rw [sound.kernelTrees.free_found (leads_to_node sound order ordered) order] at run
  obtain ⟨vmm, _, run⟩ := bind_eq_ok run
  have unbacked : ({ vma with vmm := vmm } : Vma).Sound (SummaryExact exempt) shape chain [] :=
    sound.sameNodes rfl
  rw [coalesce_absorbs unbacked order] at run
  obtain ⟨newFront, newBack, newOrder, freedIn, involved⟩ := vma.coalescing_order front back node
  obtain ⟨final, absorbed, finalSound, inUse, slabs, flag⟩ := absorb_sound unbacked
    (order.trans newOrder) involved freedIn (startIs ▸ notSlab) detached fresh
  cases absorbed.symm.trans run
  refine ⟨_, _, finalSound, ?_, ?_, flag.trans steady.calm⟩
  · have accounts := steady.accounts.perm (owned.append_right vma.slabRanges)
    unfold slabRanges at accounts ⊢
    rw [slabs]
    refine accounts.release (fun owner first amount => ?_)
    rw [← startIs, ← sizeIs]
    exact inUse owner first amount
  · rw [length_append]
    exact Nat.le_trans steady.stocked (Nat.le_add_left _ _)

end Free

end Vma

end Fesos
