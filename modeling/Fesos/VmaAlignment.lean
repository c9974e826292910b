/-
Alignment of regions and of heap blocks.

Every size the callers of the region allocator pass is a multiple of 4096, also
when it wraps, and splitting and coalescing keep starts and sizes multiples of
4096 as long as the nodes of the regions are left alone.  A replenishment writes
over the nodes of the page it is given, so the page must not hold nodes already:
that is the condition `KeepsSlab` of a call.
-/

import Fesos.KmallocBlocks
import Fesos.VmaSequence

set_option autoImplicit false

namespace Fesos

open Library List Function

/-! ### Neighbours -/

theorem nodeAfter_mem (node : Nat) {nodes : List Nat} (distinct : nodes.Nodup) :
    nodeAfter node nodes = 0 ∨ nodeAfter node nodes ∈ nodes ∧ nodeAfter node nodes ≠ node := by
  induction nodes with
  | nil => exact Or.inl rfl
  | cons first rest ih =>
    obtain ⟨outside, restDistinct⟩ := nodup_cons.mp distinct
    unfold nodeAfter
    by_cases here : first = node
    · rw [if_pos here]
      cases rest with
      | nil => exact Or.inl rfl
      | cons second rest =>
        right
        constructor
        · exact mem_cons_of_mem _ mem_cons_self
        · intro same
          apply outside
          rw [here, ← same]
          exact mem_cons_self
    · rw [if_neg here]
      rcases ih restDistinct with none | ⟨member, different⟩
      · exact Or.inl none
      · exact Or.inr ⟨mem_cons_of_mem _ member, different⟩

namespace VmaSequences

def startOf (vma : VmaSequences) (node : Nat) : Nat := (vma.regions node).startAddr

def nodesOf (vma : VmaSequences) (chain loose : List Nat) : List Nat :=
  vma.order .heap ++ (vma.order .mmio ++ (chain ++ loose))

def InSlab (vma : VmaSequences) (node : Nat) : Prop :=
  ∃ page ∈ vma.slabPages, node ∈ Vma.pageNodes page nodesPerPage

def Aligned (vma : VmaSequences) : Prop :=
  ∀ tree, ∀ node ∈ vma.order tree,
    (vma.regions node).startAddr % 4096 = 0 ∧ (vma.regions node).size % 4096 = 0

/-- The regions are aligned and no node is used twice.  The last node of the first
page is never given a link, so the end of the free list is not marked and its
length is what keeps the code from running past it. -/
structure Tidy (vma : VmaSequences) (cycle : Bool) (chain loose : List Nat) : Prop where
  replenishing : vma.inReplenishCycle = cycle
  chained : Trail vma.startOf vma.freeList chain
  counted : vma.freeNodeCount = word chain.length
  distinct : (vma.nodesOf chain loose).Nodup
  slab : ∀ node ∈ vma.nodesOf chain loose, vma.InSlab node
  pages : ∀ page ∈ vma.slabPages, page % 4096 = 0 ∧ page ≠ 0
  aligned : vma.Aligned

section Nodes

variable {vma after : VmaSequences} {cycle : Bool} {chain loose newChain newLoose : List Nat} {node : Nat}

theorem mem_nodesOf : node ∈ vma.nodesOf chain loose ↔
    (∃ tree, node ∈ vma.order tree) ∨ node ∈ chain ∨ node ∈ loose :=
  Vma.mem_parts

section

variable (tidy : vma.Tidy cycle chain loose)

include tidy

theorem Tidy.not_chain {tree : KTree} (member : node ∈ vma.order tree) : node ∉ chain :=
  ((Vma.nodup_parts.mp tidy.distinct).2.2.2.2.1 tree node member).1

theorem Tidy.not_loose {tree : KTree} (member : node ∈ vma.order tree) : node ∉ loose :=
  ((Vma.nodup_parts.mp tidy.distinct).2.2.2.2.1 tree node member).2

theorem Tidy.chain_not_loose (member : node ∈ chain) : node ∉ loose :=
  (Vma.nodup_parts.mp tidy.distinct).2.2.2.2.2 node member

theorem Tidy.order_distinct (tree : KTree) : (vma.order tree).Nodup :=
  (Vma.nodup_parts.mp tidy.distinct).1 tree

theorem Tidy.rearrange (chained : Trail after.startOf after.freeList newChain)
    (counted : after.freeNodeCount = word newChain.length)
    (rearranged : (after.nodesOf newChain newLoose).Perm (vma.nodesOf chain loose))
    (aligned : after.Aligned)
    (replenishing : after.inReplenishCycle = vma.inReplenishCycle := by rfl)
    (pages : after.slabPages = vma.slabPages := by rfl) :
    after.Tidy cycle newChain newLoose where
  replenishing := replenishing.trans tidy.replenishing
  chained := chained
  counted := counted
  distinct := rearranged.nodup_iff.mpr tidy.distinct
  slab := by
    intro node member
    unfold InSlab
    rw [pages]
    exact tidy.slab node (rearranged.mem_iff.mp member)
  pages := by
    rw [pages]
    exact tidy.pages
  aligned := aligned

end

end Nodes

/-! ### Single stores -/

section Stores

variable {vma after : VmaSequences} {cycle : Bool} {chain loose : List Nat} {node : Nat}

theorem setRegion_regions (vma : VmaSequences) (node other : Nat) (region : VmRegion) :
    (vma.setRegion node region).regions other =
      if other = node then region else vma.regions other :=
  update_apply vma.regions node region other

theorem setRegion_start (vma : VmaSequences) {node : Nat} {region : VmRegion}
    (start : region.startAddr = (vma.regions node).startAddr) (other : Nat) :
    (vma.setRegion node region).startOf other = vma.startOf other := by
  unfold startOf
  rw [setRegion_regions]
  by_cases same : other = node
  · rw [if_pos same, start, same]
  · rw [if_neg same]

theorem Tidy.setRegion (tidy : vma.Tidy cycle chain loose) (notChain : node ∉ chain)
    (region : VmRegion) (aligned : ∀ tree, node ∈ vma.order tree →
      region.startAddr % 4096 = 0 ∧ region.size % 4096 = 0) :
    (vma.setRegion node region).Tidy cycle chain loose := by
  refine tidy.rearrange (tidy.chained.congr ?_) tidy.counted (.refl _) ?_
  · intro other inChain
    unfold startOf
    rw [setRegion_regions, if_neg]
    rintro rfl
    exact notChain inChain
  · intro other otherNode inTree
    rw [setRegion_regions]
    by_cases same : otherNode = node
    · rw [if_pos same]
      exact aligned other (same ▸ inTree)
    · rw [if_neg same]
      exact tidy.aligned other otherNode inTree

theorem Tidy.setTreeRegion (tidy : vma.Tidy cycle chain loose) (tree : KTree)
    (member : node ∈ vma.order tree) (region : VmRegion) (start : region.startAddr % 4096 = 0)
    (size : region.size % 4096 = 0) : (vma.setRegion node region).Tidy cycle chain loose :=
  tidy.setRegion (tidy.not_chain member) region (fun _ _ => ⟨start, size⟩)

theorem Tidy.setLooseRegion (tidy : vma.Tidy cycle chain loose) (member : node ∈ loose)
    (region : VmRegion) : (vma.setRegion node region).Tidy cycle chain loose :=
  tidy.setRegion (fun inChain => tidy.chain_not_loose inChain member) region
    (fun _ inTree => absurd member (tidy.not_loose inTree))

theorem setOrder_order (vma : VmaSequences) (tree other : KTree) (nodes : List Nat) :
    (vma.setOrder tree nodes).order other = if other = tree then nodes else vma.order other :=
  update_apply vma.order tree nodes other

theorem nodesOf_count (vma : VmaSequences) (chain loose : List Nat) (node : Nat) :
    (vma.nodesOf chain loose).count node = (vma.order .heap).count node +
      (vma.order .mmio).count node + chain.count node + loose.count node := by
  unfold nodesOf
  simp only [count_append]
  omega

/-- Nodes move between a tree and a call. -/
theorem Tidy.setOrder {newLoose : List Nat} (tidy : vma.Tidy cycle chain loose) (tree : KTree)
    {nodes : List Nat}
    (counts : ∀ other, nodes.count other + newLoose.count other =
      (vma.order tree).count other + loose.count other)
    (aligned : ∀ other ∈ nodes,
      (vma.regions other).startAddr % 4096 = 0 ∧ (vma.regions other).size % 4096 = 0) :
    (vma.setOrder tree nodes).Tidy cycle chain newLoose := by
  refine tidy.rearrange tidy.chained tidy.counted (perm_iff_count.mpr ?_) ?_
  · intro other
    have count := counts other
    rw [nodesOf_count, nodesOf_count, setOrder_order, setOrder_order]
    cases tree with
    | heap =>
      rw [if_pos rfl, if_neg (by decide)]
      omega
    | mmio =>
      rw [if_neg (by decide), if_pos rfl]
      omega
  · intro other otherNode inTree
    rw [setOrder_order] at inTree
    by_cases same : other = tree
    · rw [if_pos same] at inTree
      exact aligned otherNode inTree
    · rw [if_neg same] at inTree
      exact tidy.aligned other otherNode inTree

/-- A loose node is put into a tree. -/
theorem Tidy.insert (tidy : vma.Tidy cycle chain (node :: loose)) (tree : KTree) (position : Nat)
    (start : (vma.regions node).startAddr % 4096 = 0) (size : (vma.regions node).size % 4096 = 0) :
    (vma.insert tree position node).Tidy cycle chain loose := by
  refine tidy.setOrder tree (fun other => ?_) (fun other member => ?_)
  · have split : (vma.order tree).count other =
        ((vma.order tree).take position).count other +
          ((vma.order tree).drop position).count other := by
      rw [← count_append, take_append_drop]
    rw [count_append, count_cons, count_cons]
    omega
  · rw [mem_append, mem_cons] at member
    rcases member with inFront | isNode | inBack
    · exact tidy.aligned tree other (mem_of_mem_take inFront)
    · rw [isNode]
      exact ⟨start, size⟩
    · exact tidy.aligned tree other (mem_of_mem_drop inBack)

/-- A node is taken out of a tree. -/
theorem Tidy.remove (tidy : vma.Tidy cycle chain loose) (tree : KTree) (member : node ∈ vma.order tree) :
    (vma.remove tree node).Tidy cycle chain (node :: loose) := by
  refine tidy.setOrder tree (fun other => ?_)
    (fun other inTree => tidy.aligned tree other (mem_of_mem_erase inTree))
  have split := (perm_cons_erase member).count_eq other
  rw [count_cons] at split ⊢
  omega

theorem Tidy.freeVmDsNode (tidy : vma.Tidy cycle chain (node :: loose)) :
    (vma.freeVmDsNode node).Tidy cycle (node :: chain) loose := by
  have isLoose : node ∈ node :: loose := mem_cons_self
  refine tidy.rearrange (tidy.chained.cons ?_ ?_) ?_ (perm_iff_count.mpr ?_) ?_
  · unfold startOf VmaSequences.freeVmDsNode
    dsimp only
    rw [update_self]
  · intro other inChain
    unfold startOf VmaSequences.freeVmDsNode
    dsimp only
    rw [update_of_ne]
    rintro rfl
    exact tidy.chain_not_loose inChain isLoose
  · change word (vma.freeNodeCount + 1) = _
    rw [tidy.counted, length_cons]
    unfold word
    omega
  · intro other
    rw [nodesOf_count, nodesOf_count, count_cons, count_cons]
    change (vma.order .heap).count other + (vma.order .mmio).count other + _ + _ = _
    omega
  · intro other otherNode inTree
    change (Function.update vma.regions node _ otherNode).startAddr % 4096 = 0 ∧
      (Function.update vma.regions node _ otherNode).size % 4096 = 0
    rw [update_of_ne]
    · exact tidy.aligned other otherNode inTree
    · intro same
      have inVma : otherNode ∈ vma.order other := inTree
      rw [same] at inVma
      exact tidy.not_loose inVma isLoose

end Stores

/-! ### Taking a node -/

section Taking

variable {vma after : VmaSequences} {cycle : Bool} {chain loose : List Nat} {node spare : Nat}

/-- What every step of an allocation leaves: at least `spare` nodes on the free
list, and all regions where they were. -/
structure Extends (vma after : VmaSequences) (cycle : Bool) (spare : Nat) (loose : List Nat) :
    Prop where
  tidy : ∃ chain, spare ≤ chain.length ∧ after.Tidy cycle chain loose
  order : ∀ tree, vma.order tree ⊆ after.order tree
  start : ∀ tree, ∀ node ∈ vma.order tree, after.startOf node = vma.startOf node

theorem Extends.trans {middle : VmaSequences} {newCycle : Bool} {newSpare : Nat}
    {newLoose : List Nat} (first : Extends vma middle cycle spare loose)
    (second : Extends middle after newCycle newSpare newLoose) :
    Extends vma after newCycle newSpare newLoose where
  tidy := second.tidy
  order := fun tree _ member => second.order tree (first.order tree member)
  start := by
    intro tree node member
    rw [second.start tree node (first.order tree member)]
    exact first.start tree node member

theorem Extends.of_regions (tidy : after.Tidy cycle chain loose) (enough : spare ≤ chain.length)
    (order : after.order = vma.order)
    (start : ∀ tree, ∀ node ∈ vma.order tree, after.startOf node = vma.startOf node) :
    Extends vma after cycle spare loose where
  tidy := ⟨chain, enough, tidy⟩
  order := by
    rw [order]
    exact fun _ _ member => member
  start := start

theorem takeNode_eq (taken : takeNode vma = .ok (node, after)) :
    node = vma.freeList ∧ after =
      { vma with
        regions := Function.update vma.regions vma.freeList VmRegion.zero
        freeList := (vma.regions vma.freeList).startAddr
        freeNodeCount := wordSub vma.freeNodeCount 1 } := by
  unfold takeNode at taken
  split at taken
  · cases taken
  · cases taken
    exact ⟨rfl, rfl⟩

theorem takeNode_ok (tidy : vma.Tidy cycle chain loose) (present : spare < chain.length)
    (taken : takeNode vma = .ok (node, after)) :
    Extends vma after cycle spare (node :: loose) ∧ after.order = vma.order ∧
      after.slabPages = vma.slabPages := by
  obtain ⟨rfl, rfl⟩ := takeNode_eq taken
  cases chain with
  | nil => exact absurd present (Nat.not_lt_zero spare)
  | cons first rest =>
    obtain ⟨isFirst, chained⟩ := tidy.chained
    rw [← isFirst] at chained
    have kept : ∀ tree, ∀ other ∈ vma.order tree,
        Function.update vma.regions vma.freeList VmRegion.zero other = vma.regions other := by
      intro tree other inTree
      apply update_of_ne
      intro same
      rw [same, isFirst] at inTree
      exact tidy.not_chain inTree mem_cons_self
    have outside : vma.freeList ∉ rest := by
      rw [isFirst]
      intro inRest
      exact (nodup_cons.mp (Vma.nodup_parts.mp tidy.distinct).2.1).1 inRest
    have left : ({ vma with
        regions := Function.update vma.regions vma.freeList VmRegion.zero
        freeList := (vma.regions vma.freeList).startAddr
        freeNodeCount := wordSub vma.freeNodeCount 1 } : VmaSequences).Tidy cycle rest
          (vma.freeList :: loose) := by
      refine tidy.rearrange (chained.congr ?_) ?_ (perm_iff_count.mpr ?_) ?_
      · intro other inRest
        unfold startOf
        dsimp only
        rw [update_of_ne]
        rintro rfl
        exact outside inRest
      · change wordSub vma.freeNodeCount 1 = _
        rw [tidy.counted, length_cons]
        unfold wordSub word
        omega
      · intro other
        rw [nodesOf_count, nodesOf_count, count_cons, count_cons, isFirst]
        dsimp only
        omega
      · intro tree other inTree
        change (Function.update vma.regions vma.freeList VmRegion.zero other).startAddr % 4096
          = 0 ∧ (Function.update vma.regions vma.freeList VmRegion.zero other).size % 4096 = 0
        rw [kept tree other inTree]
        exact tidy.aligned tree other inTree
    constructor
    · apply Extends.of_regions left
      · exact Nat.le_of_lt_succ present
      · rfl
      · intro tree other inTree
        exact congrArg VmRegion.startAddr (kept tree other inTree)
    · exact ⟨rfl, rfl⟩

/-! ### A new slab page -/

variable {other page : Nat}

theorem threadNodes_outside (page count : Nat) (regions : Nat → VmRegion)
    (outside : other ∉ Vma.pageNodes page count) :
    threadNodes page count regions other = regions other := by
  induction count with
  | zero => rfl
  | succ count ih =>
    rw [Vma.pageNodes_succ, mem_append, mem_singleton] at outside
    rw [threadNodes, update_of_ne (fun same => outside (Or.inr same))]
    exact ih (fun inside => outside (Or.inl inside))

theorem threadNodes_start (page count : Nat) (regions : Nat → VmRegion) {index : Nat}
    (small : index < count) :
    (threadNodes page count regions (page + 88 * index)).startAddr = page + 88 * (index + 1) := by
  induction count with
  | zero => omega
  | succ count ih =>
    rw [threadNodes]
    by_cases last : index = count
    · rw [last, update_self]
    · rw [update_of_ne (by omega)]
      exact ih (by omega)

theorem trail_pageNodes {next : Nat → Nat} {count : Nat} {rest : List Nat}
    (links : ∀ index < count, next (page + 88 * index) = page + 88 * (index + 1))
    (trail : Trail next (page + 88 * count) rest) :
    Trail next page (Vma.pageNodes page count ++ rest) := by
  induction count generalizing rest with
  | zero => exact trail
  | succ count ih =>
    rw [Vma.pageNodes_succ, append_assoc]
    apply ih (fun index small => links index (by omega))
    constructor
    · rfl
    · rw [links count (by omega)]
      exact trail

theorem pageNodes_apart {node : Nat} (aligned : page % 4096 = 0)
    (otherAligned : other % 4096 = 0) (different : page ≠ other)
    (inPage : node ∈ Vma.pageNodes page nodesPerPage) :
    node ∉ Vma.pageNodes other nodesPerPage := by
  intro inOther
  obtain ⟨index, small, isNode⟩ := Vma.mem_pageNodes.mp inPage
  obtain ⟨otherIndex, otherSmall, isOther⟩ := Vma.mem_pageNodes.mp inOther
  unfold nodesPerPage at small otherSmall
  omega

theorem addPage_regions (vma : VmaSequences)
    (outside : other ∉ Vma.pageNodes page nodesPerPage) :
    (vma.addPage page).regions other = vma.regions other := by
  have split := Vma.pageNodes_succ page (nodesPerPage - 1)
  change Vma.pageNodes page nodesPerPage = _ at split
  rw [split, mem_append, mem_singleton] at outside
  unfold addPage
  dsimp only
  rw [update_of_ne (fun same => outside (Or.inr same))]
  exact threadNodes_outside page _ _ (fun inside => outside (Or.inl inside))

theorem Tidy.addPage (tidy : vma.Tidy cycle chain loose) (aligned : page % 4096 = 0)
    (nonzero : page ≠ 0) (fresh : page ∉ vma.slabPages) :
    (vma.addPage page).Tidy cycle (Vma.pageNodes page nodesPerPage ++ chain) loose := by
  have outside : ∀ node ∈ vma.nodesOf chain loose, node ∉ Vma.pageNodes page nodesPerPage := by
    intro node member
    obtain ⟨other, inPages, inOther⟩ := tidy.slab node member
    apply pageNodes_apart (tidy.pages other inPages).1 aligned _ inOther
    intro same
    rw [same] at inPages
    exact fresh inPages
  have kept : ∀ node ∈ vma.nodesOf chain loose, (vma.addPage page).regions node = vma.regions node :=
    fun node member => addPage_regions vma (outside node member)
  have rearranged : ((vma.addPage page).nodesOf (Vma.pageNodes page nodesPerPage ++ chain)
      loose).Perm (Vma.pageNodes page nodesPerPage ++ vma.nodesOf chain loose) := by
    apply perm_iff_count.mpr
    intro other
    rw [nodesOf_count, count_append, count_append, nodesOf_count]
    change (vma.order .heap).count other + (vma.order .mmio).count other + _ + _ = _
    omega
  constructor
  · exact tidy.replenishing
  · have rest : Trail (vma.addPage page).startOf vma.freeList chain := by
      apply tidy.chained.congr
      intro node inChain
      unfold startOf
      rw [kept node (mem_nodesOf.mpr (Or.inr (Or.inl inChain)))]
    have split := Vma.pageNodes_succ page (nodesPerPage - 1)
    change Vma.pageNodes page nodesPerPage = _ at split
    rw [split, append_assoc]
    apply trail_pageNodes
    · intro index small
      unfold startOf VmaSequences.addPage
      dsimp only
      rw [update_of_ne (by omega)]
      exact threadNodes_start page _ _ small
    · constructor
      · rfl
      · unfold startOf VmaSequences.addPage at rest ⊢
        dsimp only at rest ⊢
        rw [update_self]
        exact rest
  · change word (vma.freeNodeCount + nodesPerPage) = _
    rw [tidy.counted, length_append, Vma.length_pageNodes]
    unfold word
    omega
  · apply rearranged.nodup_iff.mpr
    apply nodup_append.mpr
    refine ⟨Vma.pageNodes_nodup page nodesPerPage, tidy.distinct, ?_⟩
    intro node inPage other member same
    rw [← same] at member
    exact outside node member inPage
  · intro node member
    rcases mem_append.mp (rearranged.mem_iff.mp member) with inPage | old
    · exact ⟨page, mem_cons_self, inPage⟩
    · obtain ⟨other, inPages, inOther⟩ := tidy.slab node old
      exact ⟨other, mem_cons_of_mem _ inPages, inOther⟩
  · exact forall_mem_cons.mpr ⟨⟨aligned, nonzero⟩, tidy.pages⟩
  · intro tree node inTree
    rw [kept node (mem_nodesOf.mpr (Or.inl ⟨tree, inTree⟩))]
    exact tidy.aligned tree node inTree

end Taking

/-! ### Allocation -/

theorem word_aligned {value : Nat} (aligned : value % 4096 = 0) : word value % 4096 = 0 := by
  unfold word
  omega

theorem wordSub_aligned {left right : Nat} (leftAligned : left % 4096 = 0)
    (rightAligned : right % 4096 = 0) : wordSub left right % 4096 = 0 := by
  unfold wordSub word
  omega

section Allocation

variable {vma after : VmaSequences} {cycle : Bool} {chain loose : List Nat} {node spare : Nat} {tree : KTree}
  {allocNode : VmaSequences → Except Fault (Nat × VmaSequences)}

theorem insert_order (vma : VmaSequences) (tree other : KTree) (position node : Nat) :
    vma.order other ⊆ (vma.insert tree position node).order other := by
  intro member inOther
  unfold VmaSequences.insert
  rw [setOrder_order]
  by_cases same : other = tree
  · rw [same, ← take_append_drop position (vma.order tree), mem_append] at inOther
    rw [if_pos same, mem_append, mem_cons]
    exact inOther.imp_right Or.inr
  · rw [if_neg same]
    exact inOther

variable {type : VmNodeType}

theorem carve_extends {size flags position : Nat}
    (tidy : vma.Tidy cycle chain loose) (enough : spare ≤ chain.length)
    (member : node ∈ vma.order tree) (aligned : size % 4096 = 0)
    (supplies : ∀ {new middle}, allocNode vma = .ok (new, middle) →
      Extends vma middle cycle spare (new :: loose))
    (carved : carve allocNode tree position size type flags node vma = .ok after) :
    Extends vma after cycle spare loose := by
  unfold carve at carved
  have here := tidy.aligned tree node member
  by_cases whole : size = (vma.regions node).size
  · rw [if_pos whole] at carved
    cases carved
    apply Extends.of_regions
    · exact tidy.setTreeRegion tree member _ here.1 here.2
    · exact enough
    · rfl
    · intro other otherNode _inTree
      apply setRegion_start
      rfl
  · rw [if_neg whole] at carved
    obtain ⟨⟨new, middle⟩, allocated, isAfter⟩ := bind_eq_ok carved
    cases isAfter
    have supplied := supplies allocated
    obtain ⟨newChain, left, middleTidy⟩ := supplied.tidy
    have inMiddle := supplied.order tree member
    have chosen := middleTidy.aligned tree node inMiddle
    have apart : ∀ other, ∀ otherNode ∈ middle.order other, otherNode ≠ new := by
      intro other otherNode inTree same
      rw [same] at inTree
      exact middleTidy.not_loose inTree mem_cons_self
    have different := apart tree node inMiddle
    have prepared := middleTidy.setLooseRegion mem_cons_self
      { middle.regions new with
        startAddr := word ((middle.regions node).startAddr + size)
        size := wordSub (middle.regions node).size size
        type := .free }
    have startKept : ((middle.initVmDsNode new (word ((middle.regions node).startAddr + size))
        (wordSub (middle.regions node).size size) .free).regions node).startAddr % 4096 = 0 := by
      unfold initVmDsNode
      rw [setRegion_regions, if_neg different]
      exact chosen.1
    have shrunk := prepared.setTreeRegion tree inMiddle
      { (middle.initVmDsNode new (word ((middle.regions node).startAddr + size))
        (wordSub (middle.regions node).size size) .free).regions node with
          type := type, flags := flags, size := size } startKept aligned
    apply supplied.trans
    constructor
    · refine ⟨newChain, left, shrunk.insert tree position ?_ ?_⟩
      · rw [setRegion_regions, if_neg (Ne.symm different), setRegion_regions, if_pos rfl]
        exact word_aligned (by omega)
      · rw [setRegion_regions, if_neg (Ne.symm different), setRegion_regions, if_pos rfl]
        exact wordSub_aligned chosen.2 aligned
    · intro other
      exact insert_order _ tree other position new
    · intro other otherNode inTree
      change (setRegion _ node _).startOf otherNode = _
      rw [setRegion_start]
      · unfold startOf initVmDsNode
        rw [setRegion_regions, if_neg (apart other otherNode inTree)]
      · rfl

theorem back_kept {backing : Option VmaBacking}
    (backed : back type backing node vma = .ok after) :
    ∃ region : VmRegion, after = vma.setRegion node region ∧
      region.startAddr = (vma.regions node).startAddr ∧ region.size = (vma.regions node).size := by
  have same : vma = vma.setRegion node (vma.regions node) := by
    unfold setRegion
    rw [update_eq_self]
  cases type with
  | free | regular =>
    cases backed
    exact ⟨_, same, rfl, rfl⟩
  | fileBacked | hardwareMmio | unmanagedMapping =>
    cases backing with
    | none => cases backed
    | some given =>
      cases backed
      exact ⟨_, rfl, rfl, rfl⟩

def Answers (vma : VmaSequences) (answer : TreeAnswer) (tree : KTree) : Prop :=
  answer.found = 0 ∨ answer.found ∈ vma.order tree

theorem allocate_steps {size flags result : Nat} {backing : Option VmaBacking} {answer : TreeAnswer}
    (allocated : vmaAllocateMemoryFromTreeWith allocNode answer tree size type flags backing vma =
      .ok (result, after)) :
    (result = 0 ∧ after = vma) ∨ answer.found ≠ 0 ∧ result = after.startOf answer.found ∧
      ∃ middle, carve allocNode tree answer.position size type flags answer.found vma = .ok middle ∧
        ∃ region : VmRegion, after = middle.setRegion answer.found region ∧
          region.startAddr = (middle.regions answer.found).startAddr ∧
          region.size = (middle.regions answer.found).size := by
  unfold vmaAllocateMemoryFromTreeWith at allocated
  by_cases unused : type = .free
  · rw [if_pos unused] at allocated
    cases allocated
    exact Or.inl ⟨rfl, rfl⟩
  rw [if_neg unused] at allocated
  by_cases none : answer.found = 0
  · rw [if_pos none] at allocated
    cases allocated
    exact Or.inl ⟨rfl, rfl⟩
  rw [if_neg none] at allocated
  obtain ⟨middle, isCarved, rest⟩ := bind_eq_ok allocated
  obtain ⟨backed, isBacked, isAfter⟩ := bind_eq_ok rest
  cases isAfter
  exact Or.inr ⟨none, rfl, middle, isCarved, back_kept isBacked⟩

/-- The address an allocation returns is where the region found starts. -/
theorem allocate_extends {size flags result : Nat} {backing : Option VmaBacking}
    {answer : TreeAnswer} (tidy : vma.Tidy cycle chain loose) (enough : spare ≤ chain.length)
    (aligned : size % 4096 = 0) (answers : vma.Answers answer tree)
    (supplies : ∀ {new middle}, allocNode vma = .ok (new, middle) →
      Extends vma middle cycle spare (new :: loose))
    (allocated : vmaAllocateMemoryFromTreeWith allocNode answer tree size type flags backing vma =
      .ok (result, after)) :
    Extends vma after cycle spare loose ∧
      (result = 0 ∨ answer.found ∈ vma.order tree ∧ result = vma.startOf answer.found) := by
  rcases allocate_steps allocated with
    ⟨isZero, rfl⟩ | ⟨none, isStart, middle, isCarved, region, isSet, start, length⟩
  · exact ⟨Extends.of_regions tidy enough rfl (fun _ _ _ => rfl), Or.inl isZero⟩
  have member := answers.resolve_left none
  have carved := carve_extends tidy enough member aligned supplies isCarved
  obtain ⟨newChain, left, middleTidy⟩ := carved.tidy
  have inMiddle := carved.order tree member
  have regionAligned := middleTidy.aligned tree answer.found inMiddle
  rw [← start, ← length] at regionAligned
  have stored : Extends middle after cycle spare loose := by
    rw [isSet]
    apply Extends.of_regions
    · exact middleTidy.setTreeRegion tree inMiddle region regionAligned.1 regionAligned.2
    · exact left
    · rfl
    · intro other otherNode _inTree
      exact setRegion_start middle start otherNode
  have extended := carved.trans stored
  exact ⟨extended, Or.inr ⟨member, isStart.trans (extended.start tree answer.found member)⟩⟩

theorem allocate_aligned {result : Nat} {answer : TreeAnswer} (tidy : vma.Tidy cycle chain loose)
    (isResult : result = 0 ∨ answer.found ∈ vma.order tree ∧ result = vma.startOf answer.found) :
    result % 4096 = 0 := by
  rcases isResult with isZero | ⟨member, isStart⟩
  · rw [isZero]
  · rw [isStart]
    exact (tidy.aligned tree answer.found member).1

end Allocation

/-! ### Replenishment -/

section Replenishment

variable {vma after : VmaSequences} {cycle : Bool} {chain loose : List Nat} {node spare : Nat} {tree : KTree}

theorem takeNode_extends (tidy : vma.Tidy cycle chain loose) (present : spare < chain.length)
    {new : Nat} {middle : VmaSequences} (taken : takeNode vma = .ok (new, middle)) :
    Extends vma middle cycle spare (new :: loose) :=
  (takeNode_ok tidy present taken).1

theorem allocate_slabPages {size flags result : Nat} {type : VmNodeType}
    {backing : Option VmaBacking} {answer : TreeAnswer}
    (allocated : vmaAllocateMemoryFromTreeWith takeNode answer tree size type flags backing vma =
      .ok (result, after)) : after.slabPages = vma.slabPages := by
  rcases allocate_steps allocated with ⟨_, rfl⟩ | ⟨_, _, middle, isCarved, region, isSet, _⟩
  · rfl
  rw [isSet]
  unfold carve at isCarved
  by_cases whole : size = (vma.regions answer.found).size
  · rw [if_pos whole] at isCarved
    cases isCarved
    rfl
  rw [if_neg whole] at isCarved
  obtain ⟨⟨new, supplied⟩, isTaken, isMiddle⟩ := bind_eq_ok isCarved
  cases isMiddle
  obtain ⟨rfl, rfl⟩ := takeNode_eq isTaken
  rfl

theorem Tidy.setCycle (tidy : vma.Tidy cycle chain loose) (newCycle : Bool) :
    { vma with inReplenishCycle := newCycle }.Tidy newCycle chain loose :=
  { tidy with replenishing := rfl }

/-- A replenishment with a page that holds no nodes yet. -/
theorem replenish_extends {answer : TreeAnswer} (tidy : vma.Tidy cycle chain loose)
    (present : 0 < chain.length) (answers : vma.Answers answer .heap)
    (fresh : answer.found ∈ vma.order .heap → vma.startOf answer.found ∉ vma.slabPages)
    (replenished : replenishSlabFromTree answer vma = .ok after) :
    Extends vma after cycle nodesPerPage loose := by
  unfold replenishSlabFromTree at replenished
  obtain ⟨⟨page, middle⟩, allocated, rest⟩ := bind_eq_ok replenished
  by_cases none : page = 0
  · rw [if_pos none] at rest
    cases rest
  rw [if_neg none] at rest
  cases rest
  obtain ⟨extended, isResult⟩ :=
    allocate_extends tidy (Nat.le_of_lt present) (by decide) answers
      (takeNode_extends tidy present) allocated
  have pageAligned := allocate_aligned tidy isResult
  obtain ⟨member, isStart⟩ := isResult.resolve_left none
  have freshAfter := fresh member
  rw [← isStart, ← allocate_slabPages allocated] at freshAfter
  obtain ⟨newChain, _, middleTidy⟩ := extended.tidy
  apply extended.trans
  apply Extends.of_regions
  · exact middleTidy.addPage pageAligned none freshAfter
  · rw [length_append, Vma.length_pageNodes]
    exact Nat.le_add_right nodesPerPage newChain.length
  · rfl
  · intro tree node inTree
    unfold startOf
    rw [addPage_regions]
    obtain ⟨other, inPages, inOther⟩ :=
      middleTidy.slab node (mem_nodesOf.mpr (Or.inl ⟨tree, inTree⟩))
    apply pageNodes_apart (middleTidy.pages other inPages).1 pageAligned _ inOther
    intro same
    rw [same] at inPages
    exact freshAfter inPages

/-- If the nodes run short, the region found for a new slab page is not one that
holds nodes. -/
def KeepsSlab (vma : VmaSequences) (second : TreeAnswer) : Prop :=
  wordSub vma.freeNodeCount 1 < minimumAvailableNodes →
    vma.startOf second.found ∉ vma.slabPages

/-- Between calls there are enough nodes on the free list. -/
theorem allocVmDsNode_extends {second : TreeAnswer} (tidy : vma.Tidy false chain loose)
    (enough : minimumAvailableNodes ≤ chain.length)
    (answers : vma.Answers second .heap) (keeps : vma.KeepsSlab second)
    (allocated : allocVmDsNode second vma = .ok (node, after)) :
    Extends vma after false minimumAvailableNodes (node :: loose) := by
  unfold allocVmDsNode at allocated
  obtain ⟨⟨new, taken⟩, isTaken, rest⟩ := bind_eq_ok allocated
  obtain ⟨supplied, sameOrder, samePages⟩ := takeNode_ok tidy enough isTaken
  obtain ⟨newChain, left, takenTidy⟩ := supplied.tidy
  have count : taken.freeNodeCount = wordSub vma.freeNodeCount 1 := by
    rw [(takeNode_eq isTaken).2]
  by_cases short : taken.freeNodeCount < minimumAvailableNodes ∧ taken.inReplenishCycle = false
  · rw [if_pos short] at rest
    obtain ⟨replenished, isReplenished, isAfter⟩ := bind_eq_ok rest
    cases isAfter
    rw [count] at short
    have fresh := keeps short.1
    have extended : Extends { taken with inReplenishCycle := true } replenished true nodesPerPage
        (new :: loose) := by
      apply replenish_extends (takenTidy.setCycle true) (Nat.lt_of_lt_of_le (by decide) left) _ _
        isReplenished
      · exact answers.imp_right (fun member => supplied.order .heap member)
      · intro inTaken
        change second.found ∈ taken.order .heap at inTaken
        change taken.startOf second.found ∉ taken.slabPages
        rw [sameOrder] at inTaken
        rw [supplied.start .heap second.found inTaken, samePages]
        exact fresh
    obtain ⟨finalChain, finalLeft, finalTidy⟩ := extended.tidy
    apply supplied.trans
    constructor
    · exact ⟨finalChain, Nat.le_trans (by decide) finalLeft, finalTidy.setCycle false⟩
    · exact extended.order
    · exact extended.start
  · rw [if_neg short] at rest
    cases rest
    have many : minimumAvailableNodes ≤ newChain.length := by
      have counted := takenTidy.counted
      have atRest := takenTidy.replenishing
      by_contra few
      apply short
      constructor
      · rw [counted]
        exact Nat.lt_of_le_of_lt (Nat.mod_le _ _) (Nat.lt_of_not_le few)
      · exact atRest
    exact ⟨⟨newChain, many, takenTidy⟩, supplied.order, supplied.start⟩

end Replenishment

/-! ### Freeing -/

section Freeing

variable {vma after : VmaSequences} {cycle : Bool} {chain loose : List Nat} {node : Nat} {tree : KTree}

theorem nodeAfter_free (distinct : (vma.order tree).Nodup) {nodes : List Nat}
    (rearranged : nodes.Perm (vma.order tree)) (free : vma.isFree (nodeAfter node nodes) = true) :
    nodeAfter node nodes ∈ vma.order tree ∧ nodeAfter node nodes ≠ node := by
  rcases nodeAfter_mem node (rearranged.nodup_iff.mpr distinct) with none | ⟨member, different⟩
  · unfold isFree at free
    rw [none] at free
    cases free
  · exact ⟨rearranged.mem_iff.mp member, different⟩

theorem remove_mem (vma : VmaSequences) (tree : KTree) {other : Nat} (member : node ∈ vma.order tree)
    (different : node ≠ other) : node ∈ (vma.remove tree other).order tree := by
  unfold VmaSequences.remove
  rw [setOrder_order, if_pos rfl]
  exact (mem_erase_of_ne different).mpr member

/-- A free region swallows its neighbours. -/
theorem coalesce_tidy {successor predecessor : Nat} (tidy : vma.Tidy cycle chain loose)
    (member : node ∈ vma.order tree)
    (behind : vma.isFree successor = true → successor ∈ vma.order tree ∧ successor ≠ node)
    (ahead : vma.isFree predecessor = true → predecessor ∈ vma.order tree ∧ predecessor ≠ node) :
    ∃ newChain, chain.length ≤ newChain.length ∧
      (coalesce tree node successor predecessor vma).Tidy cycle newChain loose := by
  have here := tidy.aligned tree node member
  unfold coalesce
  dsimp only
  by_cases both : vma.isFree successor = true ∧ vma.isFree predecessor = true
  · rw [if_pos both]
    have next := behind both.1
    have previous := ahead both.2
    have nextAligned := tidy.aligned tree successor next.1
    have previousAligned := tidy.aligned tree predecessor previous.1
    have grown := tidy.setTreeRegion tree previous.1
      { vma.regions predecessor with
        size := word ((vma.regions successor).size + (vma.regions predecessor).size +
          (vma.regions node).size) }
      previousAligned.1 (word_aligned (by omega))
    have withoutNext := grown.remove tree next.1
    have shorter : chain.length ≤ (successor :: node :: chain).length := by
      rw [length_cons, length_cons]
      omega
    exact ⟨_, shorter, (withoutNext.remove tree
      (remove_mem _ tree member (Ne.symm next.2))).freeVmDsNode.freeVmDsNode⟩
  · rw [if_neg both]
    by_cases onlyPrevious : vma.isFree predecessor = true
    · rw [if_pos onlyPrevious]
      have previous := ahead onlyPrevious
      have previousAligned := tidy.aligned tree predecessor previous.1
      have grown := tidy.setTreeRegion tree previous.1
        { vma.regions predecessor with
          size := word ((vma.regions predecessor).size + (vma.regions node).size) }
        previousAligned.1 (word_aligned (by omega))
      exact ⟨_, Nat.le_succ _, (grown.remove tree member).freeVmDsNode⟩
    · rw [if_neg onlyPrevious]
      by_cases onlyNext : vma.isFree successor = true
      · rw [if_pos onlyNext]
        have next := behind onlyNext
        have nextAligned := tidy.aligned tree successor next.1
        have grown := tidy.setTreeRegion tree member
          { vma.regions node with
            size := word ((vma.regions successor).size + (vma.regions node).size)
            type := .free }
          here.1 (word_aligned (by omega))
        exact ⟨_, Nat.le_succ _, (grown.remove tree next.1).freeVmDsNode⟩
      · rw [if_neg onlyNext]
        exact ⟨chain, Nat.le_refl _, tidy.setTreeRegion tree member _ here.1 here.2⟩

theorem free_tidy {answer : TreeAnswer} (tidy : vma.Tidy cycle chain loose)
    (answers : vma.Answers answer tree)
    (freed : vmaFreeMemoryFromTree answer tree vma = .ok after) :
    ∃ newChain, chain.length ≤ newChain.length ∧ after.Tidy cycle newChain loose := by
  unfold vmaFreeMemoryFromTree at freed
  by_cases none : answer.found = 0
  · rw [if_pos none] at freed
    cases freed
  rw [if_neg none] at freed
  cases freed
  have distinct := tidy.order_distinct tree
  exact coalesce_tidy tidy (answers.resolve_left none)
    (nodeAfter_free distinct (List.Perm.refl _))
    (nodeAfter_free distinct (reverse_perm _))

end Freeing

/-! ### Initialisation -/

section Initialisation

theorem slabStart_tidy (memory : Nat → VmRegion) :
    (slabStart memory).Tidy false (Vma.pageNodes kernelHeapStart nodesPerPage) [] where
  replenishing := rfl
  chained := by
    have split := Vma.pageNodes_succ kernelHeapStart (nodesPerPage - 1)
    change Vma.pageNodes kernelHeapStart nodesPerPage = _ at split
    rw [split]
    apply trail_pageNodes
    · intro index small
      exact threadNodes_start kernelHeapStart _ memory small
    · exact ⟨rfl, trivial⟩
  counted := by
    rw [Vma.length_pageNodes]
    rfl
  distinct := by
    change ([] ++ ([] ++ (Vma.pageNodes kernelHeapStart nodesPerPage ++ []))).Nodup
    rw [nil_append, nil_append, append_nil]
    exact Vma.pageNodes_nodup kernelHeapStart nodesPerPage
  slab := by
    intro node member
    change node ∈ [] ++ ([] ++ (Vma.pageNodes kernelHeapStart nodesPerPage ++ [])) at member
    rw [nil_append, nil_append, append_nil] at member
    exact ⟨kernelHeapStart, mem_singleton_self _, member⟩
  pages := by
    intro page member
    rw [mem_singleton.mp member]
    decide
  aligned := by
    intro tree node member
    cases member

theorem plant_tidy {vma middle : VmaSequences} {chain : List Nat} {node spare : Nat}
    (tidy : vma.Tidy false chain []) (present : spare < chain.length)
    (taken : takeNode vma = .ok (node, middle)) (tree : KTree) (position : Nat)
    (region : VmRegion) (start : region.startAddr % 4096 = 0) (size : region.size % 4096 = 0) :
    ∃ newChain, spare ≤ newChain.length ∧
      ((middle.setRegion node region).insert tree position node).Tidy false newChain [] := by
  obtain ⟨newChain, left, middleTidy⟩ := (takeNode_ok tidy present taken).1.tidy
  have filled := middleTidy.setLooseRegion mem_cons_self region
  refine ⟨newChain, left, filled.insert tree position ?_ ?_⟩
  · rw [setRegion_regions, if_pos rfl]
    exact start
  · rw [setRegion_regions, if_pos rfl]
    exact size

theorem setRegion_twice (vma : VmaSequences) (node : Nat) (first second : VmRegion) :
    (vma.setRegion node first).setRegion node second = vma.setRegion node second := by
  unfold setRegion
  dsimp only
  rw [update_idem]

theorem vmaInit_tidy {memory : Nat → VmRegion} {vma : VmaSequences}
    (built : vmaInit memory = .ok vma) :
    ∃ chain, minimumAvailableNodes ≤ chain.length ∧ vma.Tidy false chain [] := by
  unfold vmaInit at built
  obtain ⟨⟨heapNode, first⟩, takesHeap, afterHeap⟩ := bind_eq_ok built
  obtain ⟨⟨remaining, second⟩, takesRemaining, afterRemaining⟩ := bind_eq_ok afterHeap
  obtain ⟨⟨mmioNode, third⟩, takesMmio, isVma⟩ := bind_eq_ok afterRemaining
  cases isVma
  dsimp only at takesRemaining takesMmio ⊢
  unfold initVmDsNode at takesRemaining takesMmio ⊢
  rw [setRegion_twice, setRegion_regions, if_pos rfl] at takesRemaining
  have heapAligned : kernelHeapStart % 4096 = 0 := by decide
  have remainingAligned : (kernelHeapStart + 4096) % 4096 = 0 ∧ (kernelHeapSize - 4096) % 4096 = 0 :=
    by decide
  have mmioAligned : kernelMmioStart % 4096 = 0 ∧ kernelMmioSize % 4096 = 0 := by decide
  have supply : 45 < (Vma.pageNodes kernelHeapStart nodesPerPage).length := by
    rw [Vma.length_pageNodes]
    decide
  obtain ⟨firstChain, firstLeft, firstTidy⟩ := plant_tidy (slabStart_tidy memory) supply takesHeap
    .heap 0
    { startAddr := kernelHeapStart
      size := 4096
      type := .regular
      flags := slabFlags
      backing := (first.regions heapNode).backing } heapAligned (Nat.mod_self 4096)
  obtain ⟨secondChain, secondLeft, secondTidy⟩ := plant_tidy firstTidy
    (Nat.lt_of_lt_of_le (show 44 < 45 by decide) firstLeft) takesRemaining .heap 1
    { second.regions remaining with
      startAddr := kernelHeapStart + 4096
      size := kernelHeapSize - 4096
      type := .free } remainingAligned.1 remainingAligned.2
  obtain ⟨thirdChain, thirdLeft, thirdTidy⟩ := plant_tidy secondTidy
    (Nat.lt_of_lt_of_le (show 43 < 44 by decide) secondLeft) takesMmio .mmio 0
    { third.regions mmioNode with
      startAddr := kernelMmioStart
      size := kernelMmioSize
      type := .free } mmioAligned.1 mmioAligned.2
  exact ⟨thirdChain, Nat.le_trans (by decide) thirdLeft, thirdTidy⟩

end Initialisation

end VmaSequences

end Fesos
