/-
Coalescing.

Freeing a region joins it with the free regions on either side of it.  In each of
the four cases one node keeps its place and takes over what lies directly behind
it, and the nodes behind it that are not needed any more go to the free list
(`Absorbed`).  Tiling, maximal coalescing and the conservation of nodes all follow
from that description.
-/

import Fesos.VmaAlignment
import Fesos.Library.Tiling

set_option autoImplicit false

namespace Fesos

open Library List Function

/-! ### Neighbours in a sequence -/

theorem nodeAfter_append {node : Nat} {front : List Nat} (back : List Nat)
    (outside : node ∉ front) : nodeAfter node (front ++ node :: back) = back.headD 0 := by
  induction front with
  | nil => exact if_pos rfl
  | cons first front ih =>
    obtain ⟨different, rest⟩ := not_or.mp (fun either => outside (mem_cons.mpr either))
    rw [cons_append, nodeAfter, if_neg (Ne.symm different)]
    exact ih rest

namespace VmaSequences

def sizeOf (vma : VmaSequences) (node : Nat) : Nat := (vma.regions node).size

def Apart (vma : VmaSequences) (first second : Nat) : Prop :=
  ¬((vma.regions first).type = .free ∧ (vma.regions second).type = .free)

instance (vma : VmaSequences) (first second : Nat) : Decidable (vma.Apart first second) :=
  inferInstanceAs (Decidable (¬_))

/-! ### One node takes over others -/

/-- The keeper takes over the regions directly behind it, whose nodes go to the
free list, the last one first. -/
structure Absorbed (vma after : VmaSequences) (tree : KTree) (front : List Nat) (keeper : Nat)
    (gone back : List Nat) : Prop where
  before : vma.order tree = front ++ keeper :: (gone ++ back)
  order : after.order tree = front ++ keeper :: back
  otherTree : ∀ other, other ≠ tree → after.order other = vma.order other
  start : after.startOf keeper = vma.startOf keeper
  size : after.sizeOf keeper = word (vma.sizeOf keeper + (gone.map vma.sizeOf).sum)
  free : (after.regions keeper).type = .free
  others : ∀ other, other ∉ keeper :: gone → after.regions other = vma.regions other
  pushed : Leads after.startOf after.freeList gone.reverse vma.freeList
  counted : vma.freeNodeCount < 2 ^ 64 →
    after.freeNodeCount = word (vma.freeNodeCount + gone.length)

/-- The four cases of `vma_free_memory_from_tree` as one. -/
def absorb (tree : KTree) (keeper : Nat) (gone : List Nat) (vma : VmaSequences) : VmaSequences :=
  gone.foldl freeVmDsNode
    (gone.reverse.foldl (fun vma node => vma.remove tree node)
      (vma.setRegion keeper
        { vma.regions keeper with
          size := word (vma.sizeOf keeper + (gone.map vma.sizeOf).sum)
          type := .free }))

section Absorb

variable {vma : VmaSequences} {tree : KTree} {gone front back : List Nat} {keeper : Nat}

theorem removeAll_order (distinct : (vma.order tree).Nodup)
    (before : vma.order tree = front ++ (gone ++ back)) :
    (gone.reverse.foldl (fun vma node => vma.remove tree node) vma).order =
      Function.update vma.order tree (front ++ back) := by
  induction gone generalizing front with
  | nil =>
    rw [nil_append] at before
    rw [← before, update_eq_self]
    rfl
  | cons node gone ih =>
    have shifted : vma.order tree = (front ++ [node]) ++ (gone ++ back) := by
      rw [before]
      simp
    have outside : node ∉ front := by
      rw [before] at distinct
      intro member
      exact (nodup_append.mp distinct).2.2 node member node mem_cons_self rfl
    rw [reverse_cons, foldl_append]
    change Function.update _ tree _ = _
    rw [ih shifted, update_self, update_idem, append_assoc,
      erase_append_right _ outside, singleton_append, erase_cons_head]

theorem removeAll_rest (tree : KTree) (nodes : List Nat) (vma : VmaSequences) :
    let removed := nodes.foldl (fun vma node => vma.remove tree node) vma
    removed.regions = vma.regions ∧ removed.freeList = vma.freeList ∧
      removed.freeNodeCount = vma.freeNodeCount := by
  induction nodes generalizing vma with
  | nil => exact ⟨rfl, rfl, rfl⟩
  | cons node nodes ih => exact ih (vma.remove tree node)

theorem freeVmDsNode_regions (vma : VmaSequences) {node other : Nat} (different : other ≠ node) :
    (vma.freeVmDsNode node).regions other = vma.regions other :=
  update_of_ne different _ _

theorem freeVmDsNode_link (vma : VmaSequences) (node : Nat) :
    (vma.freeVmDsNode node).startOf node = vma.freeList := by
  unfold startOf VmaSequences.freeVmDsNode
  simp only [update_self]

theorem freeAll_regions (gone : List Nat) (vma : VmaSequences) {other : Nat}
    (outside : other ∉ gone) : (gone.foldl freeVmDsNode vma).regions other = vma.regions other := by
  induction gone generalizing vma with
  | nil => rfl
  | cons node gone ih =>
    obtain ⟨different, rest⟩ := not_or.mp (fun either => outside (mem_cons.mpr either))
    rw [foldl_cons, ih (vma.freeVmDsNode node) rest]
    exact freeVmDsNode_regions vma different

theorem freeAll_order (gone : List Nat) (vma : VmaSequences) :
    (gone.foldl freeVmDsNode vma).order = vma.order := by
  induction gone generalizing vma with
  | nil => rfl
  | cons node gone ih => exact ih (vma.freeVmDsNode node)

theorem freeAll_counted (gone : List Nat) (vma : VmaSequences)
    (small : vma.freeNodeCount < 2 ^ 64) :
    (gone.foldl freeVmDsNode vma).freeNodeCount = word (vma.freeNodeCount + gone.length) := by
  induction gone generalizing vma with
  | nil => exact (word_of_lt small).symm
  | cons node gone ih =>
    rw [foldl_cons, ih (vma.freeVmDsNode node) (word_lt _), length_cons]
    change word (word (vma.freeNodeCount + 1) + gone.length) = _
    unfold word
    omega

theorem freeAll_pushed (vma : VmaSequences) (distinct : gone.Nodup) :
    Leads (gone.foldl freeVmDsNode vma).startOf (gone.foldl freeVmDsNode vma).freeList
      gone.reverse vma.freeList := by
  induction gone using List.reverseRecOn with
  | nil => rfl
  | append_singleton gone node ih =>
    obtain ⟨goneDistinct, _, apart⟩ := nodup_append.mp distinct
    rw [foldl_append, reverse_append]
    constructor
    · rfl
    · change Leads ((gone.foldl freeVmDsNode vma).freeVmDsNode node).startOf
        (((gone.foldl freeVmDsNode vma).freeVmDsNode node).startOf node) gone.reverse vma.freeList
      rw [freeVmDsNode_link]
      apply (ih goneDistinct).congr
      intro other member
      have different := apart other (mem_reverse.mp member) node (mem_singleton_self _)
      unfold startOf
      rw [freeVmDsNode_regions _ different]

theorem absorb_absorbed (distinct : (vma.order tree).Nodup)
    (before : vma.order tree = front ++ keeper :: (gone ++ back)) :
    Absorbed vma (absorb tree keeper gone vma) tree front keeper gone back := by
  have parts := distinct
  rw [before, nodup_append, nodup_cons, nodup_append] at parts
  obtain ⟨_, ⟨keeperOut, goneDistinct, _, _⟩, _⟩ := parts
  have keeperStays : keeper ∉ gone := fun member => keeperOut (mem_append_left _ member)
  let grown := vma.setRegion keeper
    { vma.regions keeper with
      size := word (vma.sizeOf keeper + (gone.map vma.sizeOf).sum)
      type := .free }
  let rest := gone.reverse.foldl (fun vma node => vma.remove tree node) grown
  have untouched := removeAll_rest tree gone.reverse grown
  have kept : ∀ other, other ∉ gone →
      (absorb tree keeper gone vma).regions other = grown.regions other := by
    intro other outside
    exact (freeAll_regions gone rest outside).trans (congrFun untouched.1 other)
  have shorter : (absorb tree keeper gone vma).order =
      Function.update vma.order tree (front ++ keeper :: back) := by
    have shifted : grown.order tree = (front ++ [keeper]) ++ (gone ++ back) := by
      change vma.order tree = _
      rw [before]
      simp
    have removed : rest.order = Function.update grown.order tree ((front ++ [keeper]) ++ back) :=
      removeAll_order distinct shifted
    rw [append_assoc] at removed
    exact (freeAll_order gone rest).trans removed
  have keeperIs := kept keeper keeperStays
  rw [setRegion_regions, if_pos rfl] at keeperIs
  constructor
  · exact before
  · rw [shorter, update_self]
  · intro other different
    rw [shorter, update_of_ne different]
  · unfold startOf
    rw [keeperIs]
  · change ((absorb tree keeper gone vma).regions keeper).size = _
    rw [keeperIs]
  · rw [keeperIs]
  · intro other outside
    obtain ⟨different, otherStays⟩ := not_or.mp (fun either => outside (mem_cons.mpr either))
    rw [kept other otherStays, setRegion_regions, if_neg different]
  · have pushed := freeAll_pushed rest goneDistinct
    rw [untouched.2.1] at pushed
    exact pushed
  · intro small
    have counted := freeAll_counted gone rest
    rw [untouched.2.2] at counted
    exact counted small

end Absorb

/-! ### The four cases -/

section Cases

variable {vma : VmaSequences} {tree : KTree} {node successor predecessor : Nat}

theorem isFree_iff : vma.isFree node = true ↔ node ≠ 0 ∧ (vma.regions node).type = .free := by
  unfold isFree
  rw [Bool.and_eq_true, decide_eq_true_eq, decide_eq_true_eq]

theorem free_type_same (free : vma.isFree node = true) (size : Nat) :
    ({ vma.regions node with size := size } : VmRegion) =
      { vma.regions node with size := size, type := .free } := by
  rw [← (isFree_iff.mp free).2]

theorem coalesce_both (behind : vma.isFree successor = true) (ahead : vma.isFree predecessor = true) :
    coalesce tree node successor predecessor vma =
      absorb tree predecessor [node, successor] vma := by
  have total : (vma.regions successor).size + (vma.regions predecessor).size +
      (vma.regions node).size =
        vma.sizeOf predecessor + ([node, successor].map vma.sizeOf).sum := by
    simp only [map_cons, map_nil, sum_cons, sum_nil, sizeOf]
    omega
  unfold coalesce
  dsimp only
  rw [if_pos ⟨behind, ahead⟩, free_type_same ahead, total]
  rfl

theorem coalesce_ahead (behind : ¬vma.isFree successor = true)
    (ahead : vma.isFree predecessor = true) :
    coalesce tree node successor predecessor vma = absorb tree predecessor [node] vma := by
  unfold coalesce
  dsimp only
  rw [if_neg (fun both => behind both.1), if_pos ahead, free_type_same ahead]
  rfl

theorem coalesce_behind (behind : vma.isFree successor = true)
    (ahead : ¬vma.isFree predecessor = true) :
    coalesce tree node successor predecessor vma = absorb tree node [successor] vma := by
  have total : (vma.regions successor).size + (vma.regions node).size =
      vma.sizeOf node + ([successor].map vma.sizeOf).sum := by
    simp only [map_cons, map_nil, sum_cons, sum_nil, sizeOf]
    omega
  unfold coalesce
  dsimp only
  rw [if_neg (fun both => ahead both.2), if_neg ahead, if_pos behind, total]
  rfl

theorem coalesce_alone (behind : ¬vma.isFree successor = true)
    (ahead : ¬vma.isFree predecessor = true) (small : vma.sizeOf node < 2 ^ 64) :
    coalesce tree node successor predecessor vma = absorb tree node [] vma := by
  have total : word (vma.sizeOf node + (([] : List Nat).map vma.sizeOf).sum) =
      (vma.regions node).size := word_of_lt small
  unfold coalesce absorb
  dsimp only
  rw [if_neg (fun both => ahead both.2), if_neg ahead, if_neg behind, total]
  rfl

end Cases

/-! ### Freeing one region -/

structure Freed (vma after : VmaSequences) (tree : KTree) (base limit node : Nat) : Prop where
  covers : Covers after.startOf after.sizeOf limit base (after.order tree)
  nonempty : (∀ other ∈ vma.order tree, 0 < vma.sizeOf other) →
    ∀ other ∈ after.order tree, 0 < after.sizeOf other
  coalesced : (after.order tree).IsChain after.Apart
  inUse : ∀ other, other ∈ after.order tree ∧ (after.regions other).type ≠ .free ↔
    other ∈ vma.order tree ∧ (vma.regions other).type ≠ .free ∧ other ≠ node
  unchanged : ∀ other, other ∈ vma.order tree → (vma.regions other).type ≠ .free → other ≠ node →
    after.regions other = vma.regions other
  inside : ∃ hole ∈ after.order tree, (after.regions hole).type = .free ∧
    after.startOf hole ≤ vma.startOf node ∧
    vma.startOf node + vma.sizeOf node ≤ after.startOf hole + after.sizeOf hole
  sublist : (after.order tree).Sublist (vma.order tree)
  pushed : ∃ dropped : List Nat, dropped.length ≤ 2 ∧ dropped.Nodup ∧
    (∀ other, other ∈ dropped ↔ other ∈ vma.order tree ∧ other ∉ after.order tree) ∧
    Leads after.startOf after.freeList dropped vma.freeList ∧
    after.freeNodeCount = word (vma.freeNodeCount + dropped.length)
  elsewhere : ∀ other, other ∉ vma.order tree → after.regions other = vma.regions other
  otherTree : ∀ other, other ≠ tree → after.order other = vma.order other

section Freeing

variable {vma after : VmaSequences} {tree : KTree} {node base : Nat} {front gone back : List Nat}
  {keeper : Nat}

namespace Absorbed

section

variable (absorbed : Absorbed vma after tree front keeper gone back) {length : UInt64}
  (covers : Covers vma.startOf vma.sizeOf (base + length.toNat) base (vma.order tree))
  (distinct : (vma.order tree).Nodup)

include absorbed

theorem mem_before {other : Nat} :
    other ∈ vma.order tree ↔ other ∈ front ++ back ∨ other ∈ keeper :: gone := by
  rw [absorbed.before, ← cons_append]
  simp only [mem_append]
  tauto

theorem mem_after {other : Nat} :
    other ∈ after.order tree ↔ other ∈ front ++ back ∨ other = keeper := by
  rw [absorbed.order]
  simp only [mem_append, mem_cons]
  tauto

section Covering

include covers

theorem keeper_size : after.sizeOf keeper = vma.sizeOf keeper + (gone.map vma.sizeOf).sum := by
  have total := covers.sum_eq
  rw [absorbed.before] at total
  simp only [map_append, map_cons, sum_append, sum_cons] at total
  have range := length.toNat_lt
  rw [absorbed.size]
  exact word_of_lt (by omega)

theorem inside (stretch : node ∈ keeper :: gone) :
    after.startOf keeper ≤ vma.startOf node ∧
      vma.startOf node + vma.sizeOf node ≤ after.startOf keeper + after.sizeOf keeper := by
  have size := absorbed.keeper_size covers
  rw [absorbed.before, ← cons_append] at covers
  obtain ⟨middle, _, rest⟩ := Covers.append_iff.mp covers
  obtain ⟨_, taken, _⟩ := Covers.append_iff.mp rest
  have within := taken.inside stretch
  have keeperStart : vma.startOf keeper = middle := taken.1
  rw [map_cons, sum_cons] at within
  rw [absorbed.start, size]
  omega

end Covering

include distinct

theorem distinct_parts :
    (keeper :: gone).Nodup ∧ ∀ other ∈ front ++ back, other ∉ keeper :: gone := by
  rw [absorbed.before, ← cons_append, nodup_append, nodup_append] at distinct
  obtain ⟨_, ⟨stretch, _, behind⟩, ahead⟩ := distinct
  constructor
  · exact stretch
  · intro other member inStretch
    rcases mem_append.mp member with inFront | inBack
    · exact ahead other inFront other (mem_append_left _ inStretch) rfl
    · exact behind other inStretch other inBack rfl

theorem same : ∀ other ∈ front ++ back, after.regions other = vma.regions other :=
  fun other member => absorbed.others other ((absorbed.distinct_parts distinct).2 other member)

include covers in
theorem still_covers :
    Covers after.startOf after.sizeOf (base + length.toNat) base (after.order tree) := by
  have size := absorbed.keeper_size covers
  rw [absorbed.before] at covers
  rw [absorbed.order]
  exact covers.absorb absorbed.start size
    (fun other member => congrArg VmRegion.startAddr (absorbed.same distinct other member))
    (fun other member => congrArg VmRegion.size (absorbed.same distinct other member))

theorem still_coalesced (coalesced : (vma.order tree).IsChain vma.Apart)
    (ahead : ∀ other ∈ front.getLast?, (vma.regions other).type ≠ .free)
    (behind : ∀ other ∈ back.head?, (vma.regions other).type ≠ .free) :
    (after.order tree).IsChain after.Apart := by
  have same := absorbed.same distinct
  have kept : ∀ part : List Nat, part ⊆ front ++ back → part.IsChain vma.Apart →
      part.IsChain after.Apart := by
    intro part subset chain
    apply chain.imp_of_mem_imp
    intro first second firstIn secondIn apart
    unfold Apart
    rw [same first (subset firstIn), same second (subset secondIn)]
    exact apart
  rw [absorbed.before, ← cons_append, isChain_append, isChain_append] at coalesced
  obtain ⟨frontChain, ⟨_, backChain, _⟩, _⟩ := coalesced
  rw [absorbed.order, isChain_append, isChain_cons]
  refine ⟨kept front (subset_append_left _ _) frontChain,
    ⟨?_, kept back (subset_append_right _ _) backChain⟩, ?_⟩
  · intro next nextIs both
    apply behind next nextIs
    rw [← same next (mem_append_right _ (mem_of_mem_head? nextIs))]
    exact both.2
  · intro previous previousIs _ _ both
    apply ahead previous previousIs
    rw [← same previous (mem_append_left _ (mem_of_mem_getLast? previousIs))]
    exact both.1

include covers in
/-- What a free does follows from which nodes lie in the absorbed stretch. -/
theorem freed
    (coalesced : (vma.order tree).IsChain vma.Apart) (small : vma.freeNodeCount < 2 ^ 64)
    (stretch : node ∈ keeper :: gone)
    (others : ∀ other ∈ keeper :: gone, (vma.regions other).type = .free ∨ other = node)
    (few : gone.length ≤ 2)
    (ahead : ∀ other ∈ front.getLast?, (vma.regions other).type ≠ .free)
    (behind : ∀ other ∈ back.head?, (vma.regions other).type ≠ .free) :
    Freed vma after tree base (base + length.toNat) node := by
  have same := absorbed.same distinct
  obtain ⟨stretchDistinct, apart⟩ := absorbed.distinct_parts distinct
  have outside : ∀ other, other ∈ vma.order tree → (vma.regions other).type ≠ .free →
      other ≠ node → other ∈ front ++ back := by
    intro other member used different
    rcases absorbed.mem_before.mp member with rest | inStretch
    · exact rest
    · rcases others other inStretch with free | isNode
      · exact absurd free used
      · exact absurd isNode different
  constructor
  · exact absorbed.still_covers covers distinct
  · intro positive other member
    rcases absorbed.mem_after.mp member with rest | isKeeper
    · rw [sizeOf, same other rest]
      exact positive other (absorbed.mem_before.mpr (Or.inl rest))
    have keeperPositive := positive keeper
      (absorbed.mem_before.mpr (Or.inr mem_cons_self))
    rw [isKeeper, absorbed.keeper_size covers]
    omega
  · exact absorbed.still_coalesced distinct coalesced ahead behind
  · intro other
    constructor
    · rintro ⟨member, used⟩
      rcases absorbed.mem_after.mp member with rest | isKeeper
      · rw [same other rest] at used
        refine ⟨absorbed.mem_before.mpr (Or.inl rest), used, ?_⟩
        rintro rfl
        exact apart other rest stretch
      · rw [isKeeper] at used
        exact absurd absorbed.free used
    · rintro ⟨member, used, different⟩
      have rest := outside other member used different
      rw [same other rest]
      exact ⟨absorbed.mem_after.mpr (Or.inl rest), used⟩
  · intro other member used different
    exact same other (outside other member used different)
  · exact ⟨keeper, absorbed.mem_after.mpr (Or.inr rfl), absorbed.free,
      absorbed.inside covers stretch⟩
  · rw [absorbed.before, absorbed.order]
    exact (List.Sublist.refl front).append ((sublist_append_right gone back).cons_cons keeper)
  · refine ⟨gone.reverse, ?_, nodup_reverse.mpr (nodup_cons.mp stretchDistinct).2, ?_,
      absorbed.pushed, ?_⟩
    · rw [length_reverse]
      exact few
    · intro other
      rw [mem_reverse, absorbed.mem_before, absorbed.mem_after, mem_cons]
      constructor
      · intro member
        refine ⟨Or.inr (Or.inr member), ?_⟩
        rintro (rest | isKeeper)
        · exact apart other rest (mem_cons_of_mem _ member)
        · rw [isKeeper] at member
          exact (nodup_cons.mp stretchDistinct).1 member
      · tauto
    · rw [length_reverse]
      exact absorbed.counted small
  · intro other absent
    apply absorbed.others
    intro inStretch
    exact absent (absorbed.mem_before.mpr (Or.inr inStretch))
  · exact absorbed.otherTree

end

end Absorbed

theorem free_ahead {other : Nat} (chain : (front ++ node :: back).IsChain vma.Apart)
    (free : (vma.regions node).type = .free) (last : other ∈ front.getLast?) :
    (vma.regions other).type ≠ .free := by
  intro otherFree
  exact (isChain_append.mp chain).2.2 other last node rfl ⟨otherFree, free⟩

theorem free_behind {other : Nat} (chain : (front ++ node :: back).IsChain vma.Apart)
    (free : (vma.regions node).type = .free) (first : other ∈ back.head?) :
    (vma.regions other).type ≠ .free := by
  intro otherFree
  have rest := (isChain_append.mp chain).2.1
  exact (isChain_cons.mp rest).1 other first ⟨free, otherFree⟩

theorem neighbour_free {items : List Nat} (free : vma.isFree (items.headD 0) = true) :
    ∃ first rest, items = first :: rest ∧ (vma.regions first).type = .free := by
  cases items with
  | nil => exact absurd rfl (isFree_iff.mp free).1
  | cons first rest => exact ⟨first, rest, rfl, (isFree_iff.mp free).2⟩

theorem neighbour_used {items : List Nat} (pointers : 0 ∉ items)
    (used : ¬vma.isFree (items.headD 0) = true) :
    ∀ other ∈ items.head?, (vma.regions other).type ≠ .free := by
  cases items with
  | nil =>
    intro other first
    cases first
  | cons first rest =>
    intro other isFirst free
    cases isFirst
    apply used
    refine isFree_iff.mpr ⟨?_, free⟩
    rintro rfl
    exact pointers mem_cons_self

/-- The neighbours decide which nodes are joined. -/
theorem coalesce_freed {length : UInt64} (order : vma.order tree = front ++ node :: back)
    (distinct : (vma.order tree).Nodup) (pointers : 0 ∉ vma.order tree)
    (covers : Covers vma.startOf vma.sizeOf (base + length.toNat) base (vma.order tree))
    (coalesced : (vma.order tree).IsChain vma.Apart) (small : vma.freeNodeCount < 2 ^ 64) :
    Freed vma (coalesce tree node (back.headD 0) (front.reverse.headD 0) vma) tree base
      (base + length.toNat) node := by
  have chain := coalesced
  rw [order] at chain
  have frontPointers : 0 ∉ front.reverse := by
    intro member
    apply pointers
    rw [order]
    exact mem_append_left _ (mem_reverse.mp member)
  have backPointers : 0 ∉ back := by
    intro member
    apply pointers
    rw [order]
    exact mem_append_right _ (mem_cons_of_mem _ member)
  by_cases behind : vma.isFree (back.headD 0) = true
  · obtain ⟨successor, rest, backIs, successorFree⟩ := neighbour_free behind
    have nextUsed : ∀ other ∈ rest.head?, (vma.regions other).type ≠ .free := by
      intro other first
      rw [backIs, append_cons] at chain
      exact free_behind chain successorFree first
    by_cases ahead : vma.isFree (front.reverse.headD 0) = true
    · obtain ⟨predecessor, start, frontIs, predecessorFree⟩ := neighbour_free ahead
      have placed : vma.order tree =
          start.reverse ++ predecessor :: ([node, successor] ++ rest) := by
        rw [order, backIs, ← reverse_reverse front, frontIs]
        simp
      have previousUsed : ∀ other ∈ start.reverse.getLast?, (vma.regions other).type ≠ .free := by
        intro other last
        rw [placed] at coalesced
        exact free_ahead coalesced predecessorFree last
      rw [coalesce_both behind ahead, backIs, frontIs]
      apply (absorb_absorbed distinct placed).freed covers distinct coalesced small
      · exact mem_cons_of_mem _ mem_cons_self
      · simp [predecessorFree, successorFree]
      · exact Nat.le_refl 2
      · exact previousUsed
      · exact nextUsed
    · have placed : vma.order tree = front ++ node :: ([successor] ++ rest) := by
        rw [order, backIs]
        rfl
      rw [coalesce_behind behind ahead, backIs]
      apply (absorb_absorbed distinct placed).freed covers distinct coalesced small
      · exact mem_cons_self
      · simp [successorFree]
      · exact Nat.le_succ 1
      · rw [← List.head?_reverse]
        exact neighbour_used frontPointers ahead
      · exact nextUsed
  · by_cases ahead : vma.isFree (front.reverse.headD 0) = true
    · obtain ⟨predecessor, start, frontIs, predecessorFree⟩ := neighbour_free ahead
      have placed : vma.order tree = start.reverse ++ predecessor :: ([node] ++ back) := by
        rw [order, ← reverse_reverse front, frontIs]
        simp
      have previousUsed : ∀ other ∈ start.reverse.getLast?, (vma.regions other).type ≠ .free := by
        intro other last
        rw [placed] at coalesced
        exact free_ahead coalesced predecessorFree last
      rw [coalesce_ahead behind ahead, frontIs]
      apply (absorb_absorbed distinct placed).freed covers distinct coalesced small
      · exact mem_cons_of_mem _ mem_cons_self
      · simp [predecessorFree]
      · exact Nat.le_succ 1
      · exact previousUsed
      · exact neighbour_used backPointers behind
    · have placed : vma.order tree = front ++ node :: ([] ++ back) := order
      have within := covers.inside (show node ∈ vma.order tree by rw [order]; simp)
      have total := covers.sum_eq
      have range := length.toNat_lt
      rw [coalesce_alone behind ahead (by omega)]
      apply (absorb_absorbed distinct placed).freed covers distinct coalesced small
      · exact mem_cons_self
      · simp
      · exact Nat.zero_le 2
      · rw [← List.head?_reverse]
        exact neighbour_used frontPointers ahead
      · exact neighbour_used backPointers behind

end Freeing

def threeRegions : VmaSequences :=
  { regions := fun node =>
      { startAddr := 4096 * node
        size := 4096
        type := if node = 2 then .regular else .free
        flags := 0
        backing := ⟨0, 0⟩ }
    order := fun _ => [1, 2, 3]
    freeList := 4
    freeNodeCount := 1
    inReplenishCycle := false
    slabPages := [] }

end VmaSequences

end Fesos
