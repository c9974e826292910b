/-
Requests that do not fit.

The worst fit search leads to a region without looking at the requested size, and
nothing between the search and the split does.  A request is answered rightly
exactly when it fits the region the search leads to.  The cached maxima may hold
anything here, and the slab may be replenished on the way.
-/

import Fesos.VmaRuns

set_option autoImplicit false

namespace Fesos

open BinaryTree Library

namespace Vma

/-! ### Starts do not move -/

section Starts

variable {vma after : Vma} {shape : Shapes} {chain loose : List Nat} {tree : KTree}
  {node size flags start : Nat} {type : VmNodeType} {backing : Option VmaBacking}
  {goal : SummaryGoal VmRegion Nat}
  {allocNode : Vma → Except Fault (Nat × Vma)}

theorem carve_ok (run : carve allocNode tree size type flags node vma = .ok after) :
    after = vma.setRegion node { vma.region node with type := type, flags := flags } ∨
      ∃ new middle, allocNode vma = .ok (new, middle) ∧
        ∀ other, after.region other = (middle.cut new node size type flags).region other := by
  unfold carve at run
  by_cases exactly : size = (vma.region node).size
  · rw [if_pos exactly] at run
    cases run
    exact Or.inl rfl
  rw [if_neg exactly] at run
  obtain ⟨⟨new, middle⟩, supply, rest⟩ := bind_eq_ok run
  obtain ⟨⟨root, nodes⟩, inserted, returned⟩ := bind_eq_ok rest
  cases returned
  refine Or.inr ⟨new, middle, supply, ?_⟩
  intro other
  rw [region, setTree_nodes]
  exact congrFun (AvlStore.avlInsert_keeps_data inserted) other

theorem carve_type (run : carve allocNode tree size type flags node vma = .ok after) :
    (after.region node).type = type := by
  rcases carve_ok run with whole | ⟨new, middle, _, regions⟩
  · rw [whole, setRegion_region, if_pos rfl]
  · rw [regions]
    unfold cut region AvlStore.setData
    simp only [Function.update_self]

/-- The supply of nodes takes none from a tree and leaves their starts alone. -/
def KeepsStarts (shape : Shapes) (vma : Vma) (allocNode : Vma → Except Fault (Nat × Vma)) : Prop :=
  ∀ new middle, allocNode vma = .ok (new, middle) → new ≠ 0 ∧
    ∀ owner, ∀ other ∈ (shape owner).inorder,
      other ≠ new ∧ middle.startOf other = vma.startOf other

theorem carve_starts (keeps : KeepsStarts shape vma allocNode)
    (run : carve allocNode tree size type flags node vma = .ok after)
    (member : node ∈ (shape tree).inorder) {owner : KTree} {other : Nat}
    (inOwner : other ∈ (shape owner).inorder) : after.startOf other = vma.startOf other := by
  rcases carve_ok run with whole | ⟨new, middle, supply, regions⟩
  · rw [whole, startOf, setRegion_region]
    split
    · rename_i here
      rw [here]
      rfl
    · rfl
  · obtain ⟨nonzero, kept⟩ := keeps new middle supply
    obtain ⟨notNew, sameStart⟩ := kept owner other inOwner
    rw [startOf, regions, middle.cut_region nonzero (kept tree node member).1]
    by_cases here : other = node
    · rw [if_pos here, ← sameStart, here]
      rfl
    · rw [if_neg here, if_neg notNew]
      exact sameStart

theorem back_starts (run : back size type flags backing node vma = .ok after) (other : Nat) :
    after.startOf other = vma.startOf other ∧ (after.region other).type = (vma.region other).type := by
  obtain ⟨recorded, vmm, state⟩ := back_ok run
  have here : after.region other = if other = node then
      { vma.region node with backing := recorded } else vma.region other := by
    rw [state]
    exact setRegion_region _ node other _
  rw [startOf, here]
  split
  · rename_i same
    rw [same]
    exact ⟨rfl, rfl⟩
  · exact ⟨rfl, rfl⟩

section

variable (sound : vma.Sound goal shape chain loose)

include sound

theorem serve_starts
    (keeps : KeepsStarts shape vma allocNode)
    (run : vmaAllocateMemoryFromTreeWith allocNode tree size type flags backing vma =
      .ok (start, after)) {owner : KTree} {other : Nat} (inOwner : other ∈ (shape owner).inorder) :
    after.startOf other = vma.startOf other := by
  by_cases busy : type = .free
  · unfold vmaAllocateMemoryFromTreeWith at run
    rw [if_pos busy] at run
    cases run
    rfl
  cases found : vma.candidate (shape tree) with
  | none =>
    rw [(serve_none sound found busy run).2]
  | some chosen =>
    obtain ⟨carved, carving, backed, _⟩ := serve_some sound found busy run
    rw [(back_starts backed other).1]
    exact carve_starts keeps carving (candidate_free found).1 inOwner

theorem takeNode_head {new : Nat} {middle : Vma}
    (supply : takeNode vma = .ok (new, middle)) :
    ∃ rest, chain = new :: rest ∧ middle = vma.taken new := by
  cases chain with
  | nil =>
    have empty : vma.freeList = 0 := sound.layout.chained
    unfold takeNode at supply
    rw [if_pos empty] at supply
    cases supply
  | cons first rest =>
    rw [(takeNode_sound sound).1] at supply
    obtain ⟨isFirst, isTaken⟩ := Prod.mk.inj (Except.ok.inj supply)
    rw [← isFirst, ← isTaken]
    exact ⟨rest, rfl, rfl⟩

theorem takeNode_keeps :
    KeepsStarts shape vma takeNode := by
  intro new middle supply
  obtain ⟨rest, rfl, rfl⟩ := takeNode_head sound supply
  refine ⟨sound.layout.ne_zero sound.geometry
    (mem_nodesOf.mpr (Or.inr (Or.inl List.mem_cons_self))), ?_⟩
  intro owner other member
  constructor
  · intro same
    rw [same] at member
    exact sound.layout.not_chain member List.mem_cons_self
  · exact congrArg VmRegion.startAddr ((takeNode_sound sound).2.2 owner other member)

/-- Threading a page writes no node of a tree: the page was free. -/
theorem replenish_starts
    (run : replenishSlabFromTree vma = .ok after) {owner : KTree} {other : Nat}
    (inOwner : other ∈ (shape owner).inorder) : after.startOf other = vma.startOf other := by
  rw [replenish_eq] at run
  obtain ⟨⟨page, granting⟩, served, rest⟩ := bind_eq_ok run
  have keeps := takeNode_keeps sound
  by_cases refused : page = 0
  · rw [if_pos refused] at rest
    cases rest
  rw [if_neg refused] at rest
  obtain ⟨touched, touching, threading⟩ := bind_eq_ok rest
  cases threading
  obtain ⟨vmm, touchedIs⟩ := touch_ok touching
  have grantingStart := serve_starts sound keeps served inOwner
  have touchedStart : touched.startOf other = vma.startOf other := by
    rw [touchedIs]
    exact grantingStart
  cases found : vma.candidate (shape .heap) with
  | none => exact absurd (serve_none sound found (by decide) served).1 refused
  | some chosen =>
    obtain ⟨member, free, _⟩ := candidate_free found
    obtain ⟨carved, carving, backed, startIs⟩ := serve_some sound found (by decide) served
    have pageIs : page = vma.startOf chosen := by
      rw [startIs, (back_starts backed chosen).1]
      exact carve_starts keeps carving member member
    have located := sound.layout.located other (mem_nodesOf.mpr (Or.inl ⟨owner, inOwner⟩))
    have outside := sound.geometry.node_not_free located member free
    have room := (sound.geometry.bounds member).2.1
    have notPage : other ∉ pageNodes page (nodesPerPage - 1 + 1) := by
      intro inside
      obtain ⟨index, small, is⟩ := mem_pageNodes.mp inside
      have perPage : nodesPerPage = 46 := rfl
      apply outside
      omega
    have kept := (touched.threaded_elsewhere page (nodesPerPage - 1)).data other notPage
    rw [← touchedStart]
    unfold startOf region
    rw [kept]

theorem allocVmDsNode_keeps :
    KeepsStarts shape vma allocVmDsNode := by
  intro new middle supply
  obtain ⟨⟨first, taken⟩, taking, rest⟩ := bind_eq_ok supply
  have keeps := takeNode_keeps sound first taken taking
  by_cases low : taken.freeNodeCount < minimumAvailableNodes ∧ taken.inReplenishCycle = false
  · rw [if_pos low] at rest
    obtain ⟨replenished, replenishing, returned⟩ := bind_eq_ok rest
    obtain ⟨remaining, rfl, rfl⟩ := takeNode_head sound taking
    have begun : ({ vma.taken first with inReplenishCycle := true } : Vma).Sound goal shape
        remaining (first :: loose) :=
      (takeNode_sound sound).2.1.sameNodes rfl
    have same := Prod.mk.inj (Except.ok.inj returned)
    rw [← same.1, ← same.2]
    refine ⟨keeps.1, ?_⟩
    intro owner other member
    constructor
    · exact (keeps.2 owner other member).1
    · exact (replenish_starts begun replenishing member).trans (keeps.2 owner other member).2
  · rw [if_neg low] at rest
    have same := Prod.mk.inj (Except.ok.inj rest)
    rw [← same.1, ← same.2]
    exact keeps

end

end Starts

/-! ### What a request is owed -/

def Inside (vma : Vma) (shape : BinaryTree Nat) (start size : Nat) : Prop :=
  ∃ node ∈ shape.inorder, (vma.region node).type = .free ∧ vma.startOf node ≤ start ∧
    start + size ≤ vma.startOf node + vma.sizeOf node

def Exceeds (vma : Vma) (shape : BinaryTree Nat) (size : Nat) : Prop :=
  ∀ node ∈ shape.inorder, (vma.region node).type = .free → vma.sizeOf node < size

instance (vma : Vma) (shape : BinaryTree Nat) (size : Nat) : Decidable (vma.Exceeds shape size) :=
  inferInstanceAs (Decidable (∀ node ∈ shape.inorder, _))

/-- NULL and no change for a request that exceeds the free regions, and otherwise
only addresses of free memory. -/
def Honest (vma : Vma) (shape : BinaryTree Nat) (size : Nat) (type : VmNodeType) (flags : Nat)
    (backing : Option VmaBacking) : Prop :=
  (vma.Exceeds shape size →
    vmaAllocateMemoryFromKtree size type flags backing vma = .ok (0, vma)) ∧
    ∀ start after, vmaAllocateMemoryFromKtree size type flags backing vma = .ok (start, after) →
      start ≠ 0 → size ≠ 0 → vma.Inside shape start size

def Fits (vma : Vma) (shape : BinaryTree Nat) (size : Nat) (type : VmNodeType) : Prop :=
  type = .free ∨ ∀ chosen ∈ vma.candidate shape, size ≤ vma.sizeOf chosen

instance (vma : Vma) (shape : BinaryTree Nat) (size : Nat) (type : VmNodeType) :
    Decidable (vma.Fits shape size type) :=
  inferInstanceAs (Decidable (type = .free ∨ _))

section Requests

variable {vma after : Vma} {shape : Shapes} {chain : List Nat} {tree : KTree}
  {chosen size flags start : Nat} {type : VmNodeType} {backing : Option VmaBacking}
  {goal : SummaryGoal VmRegion Nat}

theorem ktree_serves (serving : servingTree type backing = .ok tree) :
    vmaAllocateMemoryFromKtree size type flags backing vma =
      vmaAllocateMemoryFromTreeWith allocVmDsNode tree size type flags backing vma := by
  unfold vmaAllocateMemoryFromKtree
  rw [serving, ok_bind]
  rfl

theorem ktree_grants (sound : vma.Sound goal shape chain [])
    (serving : servingTree type backing = .ok tree) (busy : type ≠ .free)
    (found : vma.candidate (shape tree) = some chosen)
    (run : vmaAllocateMemoryFromKtree size type flags backing vma = .ok (start, after)) :
    start = vma.startOf chosen ∧ (after.region chosen).type ≠ .free := by
  rw [ktree_serves serving] at run
  obtain ⟨carved, carving, backed, startIs⟩ := serve_some sound found busy run
  have member := (candidate_free found).1
  obtain ⟨sameStart, sameType⟩ := back_starts backed chosen
  constructor
  · rw [startIs, sameStart]
    exact carve_starts (allocVmDsNode_keeps sound) carving member member
  · rw [sameType, carve_type carving]
    exact busy

theorem ktree_refuses (sound : vma.Sound goal shape chain [])
    (serving : servingTree type backing = .ok tree)
    (nothing : type = .free ∨ vma.candidate (shape tree) = none) :
    vmaAllocateMemoryFromKtree size type flags backing vma = .ok (0, vma) := by
  rw [ktree_serves serving]
  unfold vmaAllocateMemoryFromTreeWith
  by_cases free : type = .free
  · exact if_pos free
  · rw [if_neg free, worstFit_candidate sound, nothing.resolve_left free, ok_bind]
    rfl

/-- A request is answered rightly exactly when it fits the region that the search
leads to.  Left out is a call that does not return although some free region
fits: nothing is said about it. -/
theorem vmaAllocateMemoryFromKtree_honest_iff (sound : vma.Sound goal shape chain [])
    (serving : servingTree type backing = .ok tree)
    (owed : vma.Exceeds (shape tree) size ∨
      ∃ result, vmaAllocateMemoryFromKtree size type flags backing vma = .ok result) :
    vma.Honest (shape tree) size type flags backing ↔ vma.Fits (shape tree) size type := by
  constructor
  · intro honest
    by_cases busy : type = .free
    · exact Or.inl busy
    refine Or.inr ?_
    intro chosen found
    obtain ⟨member, free, _⟩ := candidate_free found
    rcases owed with exceeds | ⟨⟨start, after⟩, run⟩
    · have run := honest.1 exceeds
      exact absurd free (ktree_grants sound serving busy found run).2
    have startIs := (ktree_grants sound serving busy found run).1
    have room := sound.geometry.bounds member
    have positive := treeStart_pos tree
    by_cases empty : size = 0
    · omega
    obtain ⟨holder, holderIn, _, low, high⟩ :=
      honest.2 start after run (by omega) empty
    have same := (sound.geometry.tiles tree).eq_of_overlap holderIn member start
      (by omega) (by omega)
    rw [same] at high
    omega
  · intro fits
    by_cases nothing : type = .free ∨ vma.candidate (shape tree) = none
    · have run : vmaAllocateMemoryFromKtree size type flags backing vma = .ok (0, vma) :=
        ktree_refuses sound serving nothing
      refine ⟨fun _ => run, ?_⟩
      intro start after other nonzero
      rw [run] at other
      cases other
      exact absurd rfl nonzero
    · obtain ⟨busy, present⟩ := not_or.mp nothing
      obtain ⟨chosen, found⟩ := Option.ne_none_iff_exists'.mp present
      obtain ⟨member, free, _⟩ := candidate_free found
      have enough := fits.resolve_left busy chosen found
      constructor
      · intro exceeds
        have small := exceeds chosen member free
        omega
      · intro start after run _ _
        have startIs := (ktree_grants sound serving busy found run).1
        exact ⟨chosen, member, free, by omega, by omega⟩

end Requests

/-- Two pages right after `vma_init`. -/
theorem vmaAllocateMemoryFromKtree_honest_iff_twoPages :
    ∃ vma, vmaInit Vmm.emptyTables = .ok vma ∧
      vma.Honest (vma.shapes .heap) 8192 .regular slabFlags none := by
  obtain ⟨vma, shape, chain, started, steady⟩ := vmaInit_steady Vmm.emptyTables
  obtain ⟨other, same, fits, returns⟩ : ∃ vma, vmaInit Vmm.emptyTables = .ok vma ∧
      vma.Fits (vma.shapes .heap) 8192 .regular ∧
      (vmaAllocateMemoryFromKtree 8192 .regular slabFlags none vma).toOption.isSome = true :=
    exists_of_checked _ (by decide +kernel)
  rw [started] at same
  cases same
  refine ⟨vma, started, ?_⟩
  rw [steady.sound.shapes_eq] at fits ⊢
  apply (vmaAllocateMemoryFromKtree_honest_iff steady.sound rfl ?_).mpr fits
  right
  cases run : vmaAllocateMemoryFromKtree 8192 .regular slabFlags none vma with
  | error fault =>
    rw [run] at returns
    cases returns
  | ok result => exact ⟨result, rfl⟩

/-- 16 GiB right after `vma_init`, one page more than is free. -/
theorem vmaAllocateMemoryFromKtree_oversells :
    ∃ vma, vmaInit Vmm.emptyTables = .ok vma ∧ vma.Exceeds (vma.shapes .heap) (2 ^ 34) ∧
      ¬ vma.Honest (vma.shapes .heap) (2 ^ 34) .regular slabFlags none := by
  obtain ⟨vma, started, exceeds, granted⟩ : ∃ vma, vmaInit Vmm.emptyTables = .ok vma ∧
      vma.Exceeds (vma.shapes .heap) (2 ^ 34) ∧
      (vmaAllocateMemoryFromKtree (2 ^ 34) .regular slabFlags none vma).toOption.map Prod.fst =
        some (kernelHeapStart + 4096) :=
    exists_of_checked _ (by decide +kernel)
  refine ⟨vma, started, exceeds, ?_⟩
  intro honest
  rw [honest.1 exceeds] at granted
  have null : 0 = kernelHeapStart + 4096 := Option.some.inj granted
  exact absurd null (by decide)

end Vma

end Fesos
