/-
`kunmap_mmio` right after `kmap_mmio`.

The address handed out is the start of the region plus the offset in the page, and
the region is looked up again by its exact start.  The pair undoes itself exactly
when the offset is zero, no page of the range was present before, the search finds
the region and the leftover of the split is joined and taken out of the tree again.
-/

import Fesos.AvlRemovable
import Fesos.Mmio

set_option autoImplicit false

namespace Fesos

open BinaryTree Library Function
open List hiding nil

namespace Vma

/-! ### What is to be undone -/

/-- All regions and translations are as before the mapping: the region is FREE again, and
none of the pages mapped in between is present. -/
structure Undone (vma middle after : Vma) (shape : Shapes) (chosen : Nat) : Prop where
  trees : ∃ newShape, after.KernelTrees newShape ∧
    ∀ tree, (newShape tree).inorder = (shape tree).inorder
  free : (after.region chosen).type = .free
  sameStart : after.startOf chosen = vma.startOf chosen
  sameSize : after.sizeOf chosen = vma.sizeOf chosen
  others : ∀ tree, ∀ node ∈ (shape tree).inorder, node ≠ chosen →
    after.region node = vma.region node
  removed : ∀ vAddr, middle.vmm.leaf vAddr ≠ vma.vmm.leaf vAddr → after.vmm.leaf vAddr = none
  translations : ∀ vAddr, after.vmm.leaf vAddr = vma.vmm.leaf vAddr ∧
    after.vmm.hugeAt vAddr = vma.vmm.hugeAt vAddr

/-! ### When it is undone -/

def RemovableIn (pointer : Nat) (shape : BinaryTree Nat) : Prop :=
  ∃ place ∈ focus pointer shape, Removable place.1 place.2.1 place.2.2

instance (pointer : Nat) (shape : BinaryTree Nat) : Decidable (RemovableIn pointer shape) :=
  inferInstanceAs (Decidable (∃ place ∈ focus pointer shape, _))

def granted (vma : Vma) (chosen size : Nat) : Vma :=
  if size = vma.sizeOf chosen then
    vma.setRegion chosen { vma.region chosen with type := .hardwareMmio }
  else (vma.taken vma.freeList).cut vma.freeList chosen size .hardwareMmio 0

def leftover (vma : Vma) (chosen size : Nat) : List Nat :=
  if size = vma.sizeOf chosen then [] else [vma.freeList]

/-- The search for the start finds the region, which is joined with its leftover and nothing
else, and the leftover is taken out of the tree. -/
def Rejoins (vma : Vma) (shape : BinaryTree Nat) (chosen size : Nat) : Prop :=
  (vma.granted chosen size).LeadsTo (vma.grantTree shape vma.freeList chosen size)
      (vma.startOf chosen) chosen ∧
    (vma.granted chosen size).freePlan (vma.grantTree shape vma.freeList chosen size) chosen =
      (chosen, vma.leftover chosen size) ∧
    ∀ node ∈ vma.leftover chosen size,
      RemovableIn node (vma.grantTree shape vma.freeList chosen size)

instance (vma : Vma) (shape : BinaryTree Nat) (chosen size : Nat) :
    Decidable (vma.Rejoins shape chosen size) :=
  inferInstanceAs (Decidable (_ ∧ _ ∧ ∀ node ∈ vma.leftover chosen size, _))

/-- The address is page-aligned, the slab is not grown, no page of the range is present and
the region is joined again. -/
def Undoable (vma : Vma) (shape : Shapes) (chosen physicalAddress size : Nat) : Prop :=
  physicalAddress % 4096 = 0 ∧ ¬ vma.GrowsSlab chosen (mmioSize physicalAddress size) ∧
    (∀ offset < mmioSize physicalAddress size / 4096,
      vma.vmm.leaf (vma.startOf chosen + 4096 * offset) = none) ∧
    vma.Rejoins (shape .mmio) chosen (mmioSize physicalAddress size)

instance (vma : Vma) (shape : Shapes) (chosen physicalAddress size : Nat) :
    Decidable (vma.Undoable shape chosen physicalAddress size) :=
  inferInstanceAs (Decidable (_ ∧ ¬ (_ ∧ _) ∧
    (∀ offset < mmioSize physicalAddress size / 4096, _) ∧ _))

/-! ### After the mapping -/

def grantShapes (vma : Vma) (shape : Shapes) (chosen size : Nat) : Shapes :=
  Function.update shape .mmio (vma.grantTree (shape .mmio) vma.freeList chosen size)

theorem grantShapes_mmio (vma : Vma) (shape : Shapes) (chosen size : Nat) :
    vma.grantShapes shape chosen size .mmio =
      vma.grantTree (shape .mmio) vma.freeList chosen size :=
  update_self _ _ _

theorem grantShapes_heap (vma : Vma) (shape : Shapes) (chosen size : Nat) :
    vma.grantShapes shape chosen size .heap = shape .heap :=
  update_of_ne KTree.noConfusion _ _

theorem mem_grantShapes {vma : Vma} {shape : Shapes} {chosen node : Nat}
    (member : node ∈ (shape .mmio).inorder) (size : Nat) :
    node ∈ (vma.grantShapes shape chosen size .mmio).inorder := by
  rw [grantShapes_mmio]
  exact grantTree_subset member

theorem grantShapes_short {vma : Vma} {shape : Shapes} (geometry : vma.Geometry shape)
    (chosen size : Nat) (tree : KTree) :
    (vma.grantShapes shape chosen size tree).inorder.length + 2 < treeFuel := by
  have few := geometry.length_le tree
  have grown := vma.grantTree_length (shape .mmio) vma.freeList chosen size
  unfold treeFuel
  cases tree with
  | heap =>
    rw [grantShapes_heap]
    omega
  | mmio =>
    rw [grantShapes_mmio]
    omega

structure MmioGranted (vma middle : Vma) (shape : Shapes) (chain : List Nat)
    (chosen physicalAddress size : Nat) (mmioFlag : MmioFlags) : Prop where
  wired : middle.Wired (vma.grantShapes shape chosen (mmioSize physicalAddress size))
    (vma.grantChain vma.freeList chosen (mmioSize physicalAddress size) chain) []
  here : middle.region chosen =
    { vma.region chosen with
      type := .hardwareMmio
      flags := mmioFlag.vmmFlags
      size := mmioSize physicalAddress size
      backing := { (vma.region chosen).backing with first := physicalAddress / 4096 * 4096 } }
  others : ∀ other, other ≠ chosen → middle.region other =
    vma.grantRegion vma.freeList chosen (mmioSize physicalAddress size) .hardwareMmio
      mmioFlag.vmmFlags other
  tables : middle.vmm = (vma.vmm.vmmMap (vma.startOf chosen) (physicalAddress / 4096 * 4096)
    (mmioSize physicalAddress size / 4096) mmioFlag.vmmFlags).2

section Granted

variable {vma middle after : Vma} {shape : Shapes} {chain : List Nat} {mmioFlag : MmioFlags}
  {chosen physicalAddress size virtual : Nat}
  {goal : SummaryGoal VmRegion Nat}

theorem mmioBacked_wired {carved : Vma} {newShape : Shapes} {newChain : List Nat}
    (wired : carved.Wired newShape newChain []) (member : chosen ∈ (newShape .mmio).inorder) :
    (carved.mmioBacked chosen physicalAddress size mmioFlag).Wired newShape newChain [] :=
  (wired.setRegion member _).sameNodes rfl

theorem mmioBacked_region (carved : Vma) (other : Nat) :
    (carved.mmioBacked chosen physicalAddress size mmioFlag).region other =
      if other = chosen then { carved.region chosen with
        backing := { (carved.region chosen).backing with first := physicalAddress / 4096 * 4096 } }
      else carved.region other :=
  setRegion_region _ _ _ _

/-- The address handed out, and the state, of a call that returns. -/
theorem kmapMmio_returns (sound : vma.Sound goal shape chain [])
    (found : vma.candidate (shape .mmio) = some chosen)
    (run : kmapMmio physicalAddress size mmioFlag vma = .ok (virtual, middle)) :
    ∃ carved, carve allocVmDsNode .mmio (mmioSize physicalAddress size) .hardwareMmio
        mmioFlag.vmmFlags chosen vma = .ok carved ∧
      middle = carved.mmioBacked chosen physicalAddress size mmioFlag ∧
      (carved.startOf chosen = vma.startOf chosen →
        virtual = vma.startOf chosen + physicalAddress % 4096) := by
  have room := sound.geometry.bounds (candidate_free found).1
  have base := treeStart_pos .mmio
  have limit := treeLimit_lt .mmio
  rw [kmapMmio_carve sound found] at run
  obtain ⟨carved, carving, returned⟩ := bind_eq_ok run
  refine ⟨carved, carving, ?_, ?_⟩
  · split at returned
    · cases returned
      rfl
    · cases returned
      rfl
  · intro startIs
    rw [if_neg (by omega)] at returned
    cases returned
    rw [startIs, word_of_lt (by omega)]

theorem kmapMmio_granted (sound : vma.Sound goal shape chain [])
    (stocked : minimumAvailableNodes ≤ chain.length)
    (found : vma.candidate (shape .mmio) = some chosen)
    (steady : ¬ vma.GrowsSlab chosen (mmioSize physicalAddress size))
    (run : kmapMmio physicalAddress size mmioFlag vma = .ok (virtual, middle)) :
    virtual = vma.startOf chosen + physicalAddress % 4096 ∧
      ∃ rest, chain = vma.freeList :: rest ∧ vma.freeList ≠ 0 ∧
        MmioGranted vma middle shape rest chosen physicalAddress size mmioFlag := by
  have member := (candidate_free found).1
  have few := sound.layout.chain_few sound.geometry
  have short := sound.geometry.short .mmio
  have counted := sound.layout.counted
  obtain ⟨carved, carving, middleIs, virtualIs⟩ := kmapMmio_returns sound found run
  cases chain with
  | nil => cases stocked
  | cons first rest =>
    have head := freeList_head sound
    have nonzero := sound.layout.head_ne_zero
    have different := sound.layout.ne_head member
    have plenty : ¬ mmioSize physicalAddress size = vma.sizeOf chosen →
        minimumAvailableNodes ≤ rest.length := by
      intro inexact
      have many : ¬ vma.freeNodeCount ≤ minimumAvailableNodes := fun low => steady ⟨inexact, low⟩
      rw [counted, length_cons] at many
      omega
    obtain ⟨after, run, wired, regions, sameVmm, _slabs, _flag, _spares⟩ :=
      sound.wired.carve_taken nonzero (by omega) (by omega) member
        (fun inexact => alloc_plenty sound (plenty inexact)) .hardwareMmio mmioFlag.vmmFlags
    cases carving.symm.trans run
    have regionIs := (regions chosen).trans (grantRegion_node nonzero different _ _ _)
    have startIs : carved.startOf chosen = vma.startOf chosen := by
      unfold startOf
      rw [regionIs]
    rw [head]
    refine ⟨virtualIs startIs, rest, rfl, nonzero, ?_⟩
    rw [middleIs]
    constructor
    · unfold grantShapes
      rw [head]
      apply mmioBacked_wired wired
      rw [update_self]
      exact grantTree_subset member
    · rw [mmioBacked_region, if_pos rfl, regionIs]
    · intro other notChosen
      rw [mmioBacked_region, if_neg notChosen, regions, head]
    · change (carved.vmm.vmmMap (carved.startOf chosen) _ _ _).2 = _
      rw [startIs, sameVmm]

section

variable (granted : MmioGranted vma middle shape chain chosen physicalAddress size mmioFlag)

include granted

theorem MmioGranted.trees
    (geometry : vma.Geometry shape) :
    middle.KernelTrees (vma.grantShapes shape chosen (mmioSize physicalAddress size)) :=
  granted.wired.kernelTrees
    (fun tree => Nat.lt_of_add_right_lt (grantShapes_short geometry _ _ tree))

/-- Starts and types are those of the regions with the request cut out. -/
theorem MmioGranted.same
    (nonzero : vma.freeList ≠ 0) (different : chosen ≠ vma.freeList) (other : Nat) :
    middle.startOf other =
        (vma.granted chosen (mmioSize physicalAddress size)).startOf other ∧
      (middle.region other).type =
        ((vma.granted chosen (mmioSize physicalAddress size)).region other).type := by
  unfold startOf Vma.granted
  by_cases here : other = chosen
  · rw [here, granted.here]
    split
    · rw [setRegion_region, if_pos rfl]
      exact ⟨rfl, rfl⟩
    · rw [cut_region _ nonzero different, if_pos rfl, taken_region vma different]
      exact ⟨rfl, rfl⟩
  · rw [granted.others other here]
    unfold grantRegion
    split
    · rw [setRegion_region, if_neg here, setRegion_region, if_neg here]
      exact ⟨rfl, rfl⟩
    · rw [cut_region _ nonzero different, if_neg here, cut_region _ nonzero different, if_neg here]
      exact ⟨rfl, rfl⟩

/-- All regions of the tree start at page boundaries. -/
theorem MmioGranted.aligned
    (sound : vma.Sound goal shape (vma.freeList :: chain) []) (nonzero : vma.freeList ≠ 0)
    (member : chosen ∈ (shape .mmio).inorder) {node : Nat}
    (inTree : node ∈ (vma.grantTree (shape .mmio) vma.freeList chosen
      (mmioSize physicalAddress size)).inorder) :
    middle.startOf node % 4096 = 0 := by
  have different := sound.layout.ne_head member
  have chosenAligned := sound.geometry.aligned member
  by_cases old : node ∈ (shape .mmio).inorder
  · have notNew := sound.layout.ne_head old
    have startIs : middle.startOf node = vma.startOf node := by
      by_cases here : node = chosen
      · unfold startOf
        rw [here, granted.here]
      · unfold startOf
        rw [granted.others node here, grantRegion_other nonzero different here notNew]
    rw [startIs]
    exact sound.geometry.aligned old
  · unfold grantTree at inTree
    split at inTree
    · exact absurd inTree old
    rename_i inexact
    have isNew : node = vma.freeList := by
      rcases mem_cons.mp ((splitTree_perm _ _ _ _ _).mem_iff.mp inTree) with new | inside
      · exact new
      · exact absurd inside old
    have startIs : middle.startOf node =
        word (vma.startOf chosen + mmioSize physicalAddress size) := by
      rw [isNew, (granted.same nonzero different _).1]
      unfold Vma.granted
      rw [if_neg inexact]
      unfold startOf
      rw [cut_region _ nonzero different, if_neg different.symm, if_pos rfl]
      unfold startOf
      rw [taken_region vma different]
    have whole : mmioSize physicalAddress size % 4096 = 0 := Nat.mul_mod_left _ _
    rw [startIs]
    unfold word
    omega

end

end Granted

/-! ### Searching for the address -/

section Search

variable {vma : Vma} {tree : BinaryTree Nat} {shape : Shapes} {startAddr node : Nat}

theorem LeadsTo.congruent (leads : vma.LeadsTo tree startAddr node) :
    vma.startOf node % 4096 = startAddr % 4096 := by
  have zero := leads.2
  unfold vmAvlCompAddr toInt32 at zero
  have divides := Int.dvd_of_bmod_eq_zero zero
  unfold startOf
  omega

theorem kunmapMmio_tree (low : treeStart .mmio ≤ startAddr) (high : startAddr < treeLimit .mmio) :
    kunmapMmio startAddr vma = vmaFreeMemoryFromTree .mmio startAddr vma := by
  have apart : treeLimit .mmio ≤ kernelHeapStart := by decide
  have owner : owningTree startAddr = .mmio := if_neg (by omega)
  unfold kunmapMmio
  rw [vmaFreeMemoryFromKtree_eq (Or.inr ⟨low, high⟩), owner]

end Search

/-! ### Taking the leftover out -/

section Removal

variable {vma removed : Vma} {shape : Shapes} {chain loose : List Nat} {tree : KTree}
  {pointer : Nat}

theorem Layout.callable (layout : vma.Layout shape chain loose) {node : Nat}
    (member : node ∈ (shape tree).inorder) : vma.nodes.Callable vmCallbacks node := by
  right
  refine ⟨vmAvlUpdate, ?_⟩
  rw [layout.callback tree node member]
  exact if_pos rfl

section

variable (wired : vma.Wired shape chain loose) (short : (shape tree).inorder.length + 2 < treeFuel)
  (balanced : (shape tree).Balanced) (member : pointer ∈ (shape tree).inorder)

include wired short balanced member

theorem Wired.deleted_cases :
    (AvlStore.Deleted vmCallbacks treeFuel vma.nodes (shape tree) pointer →
      RemovableIn pointer (shape tree)) ∧
    (RemovableIn pointer (shape tree) → ∃ result, detach pointer (shape tree) = some result) := by
  obtain ⟨frames, left, right, found⟩ := focus_of_mem member
  have whole := focus_plug found
  have cases := AvlStore.deleted_cases (show vma.nodes.Linked 0 (plug frames (node pointer left right))
    from whole ▸ wired.layout.linked tree) (whole ▸ wired.layout.tree_nodup tree)
    (fun other inTree => wired.layout.callable
      (show other ∈ (shape tree).inorder from whole ▸ inTree))
    (whole ▸ wired.depths tree) (whole ▸ short) (whole ▸ balanced)
  rw [← whole] at cases
  constructor
  · intro deleted
    exact ⟨(frames, left, right), found, cases.1 deleted⟩
  · rintro ⟨place, isPlace, removable⟩
    cases found.symm.trans isPlace
    exact cases.2 removable

theorem Wired.removable_of_order (run : removeFromTree tree pointer vma = .ok removed)
    {result : BinaryTree Nat} (rooted : removed.root tree = rootOf result)
    (linked : removed.nodes.Linked 0 result)
    (order : result.inorder = (shape tree).inorder.erase pointer) :
    RemovableIn pointer (shape tree) := by
  apply (wired.deleted_cases short balanced member).1
  unfold removeFromTree at run
  obtain ⟨⟨root, nodes⟩, removal, rest⟩ := bind_eq_ok run
  cases rest
  rw [setTree_root, if_pos rfl] at rooted
  rw [setTree_nodes] at linked
  rw [wired.layout.rooted] at removal
  refine ⟨nodes, result, ?_, linked, order⟩
  rw [removal, ← rooted]

end

end Removal

/-! ### Undoing -/

section Undo

variable {vma middle after : Vma} {shape : Shapes} {chain : List Nat} {mmioFlag : MmioFlags}
  {chosen physicalAddress size : Nat}
  {goal : SummaryGoal VmRegion Nat}

theorem unback_mmio {region : VmRegion} (mmio : region.type = .hardwareMmio) (vmm : Vmm) :
    unback region vmm = .ok (vmm.vmmUnmap region.startAddr (region.size / 4096)).2 := by
  unfold unback
  rw [mmio]

variable {node : Nat}

theorem grantTree_erase (vma : Vma) {tree : BinaryTree Nat} {new size : Nat}
    (inexact : ¬ size = vma.sizeOf node) (fresh : new ∉ tree.inorder) :
    (vma.grantTree tree new node size).inorder.erase new = tree.inorder := by
  unfold grantTree splitTree
  rw [if_neg inexact]
  obtain ⟨front, back, order, inserted⟩ := insertTree_splits
    ((vma.taken new).goesLeft (word ((vma.taken new).startOf node + size))) new tree
  rw [order] at fresh
  rw [inserted, order, erase_append_right _ (fun inFront =>
    fresh (mem_append_left _ inFront)), erase_cons_head]

theorem grantShapes_balanced (balanced : (shape .mmio).Balanced) (chosen size : Nat) :
    (vma.grantShapes shape chosen size .mmio).Balanced := by
  rw [grantShapes_mmio]
  unfold grantTree splitTree
  split
  · exact balanced
  · exact (insertTree_balanced _ _ balanced).1

def unmapped (middle : Vma) (start pages : Nat) : Vma :=
  { middle with vmm := (middle.vmm.vmmUnmap start pages).2 }

theorem Wired.unmapped {loose : List Nat} (wired : middle.Wired shape chain loose)
    (start pages : Nat) : (middle.unmapped start pages).Wired shape chain loose :=
  wired.sameNodes rfl

theorem MmioGranted.free_eq
    (granted : MmioGranted vma middle shape chain chosen physicalAddress size mmioFlag)
    (geometry : vma.Geometry shape) {front back : List Nat}
    (leads : middle.LeadsTo
      (vma.grantShapes shape chosen (mmioSize physicalAddress size) .mmio) (vma.startOf chosen) chosen)
    (order : (vma.grantShapes shape chosen (mmioSize physicalAddress size) .mmio).inorder =
      front ++ chosen :: back) :
    vmaFreeMemoryFromTree .mmio (vma.startOf chosen) middle =
      coalesce .mmio chosen (back.head?.getD 0) (front.getLast?.getD 0)
        (middle.unmapped (vma.startOf chosen) (mmioSize physicalAddress size / 4096)) := by
  have busy : (middle.region chosen).type = .hardwareMmio := by rw [granted.here]
  rw [(granted.trees geometry).free_found leads order, unback_mmio busy, ok_bind, granted.here]
  rfl

theorem Undone.leads (undone : Undone vma middle after shape chosen)
    (granted : MmioGranted vma middle shape chain chosen physicalAddress size mmioFlag)
    (geometry : vma.Geometry shape)
    (run : vmaFreeMemoryFromTree .mmio (vma.startOf chosen) middle = .ok after) :
    middle.LeadsTo (vma.grantShapes shape chosen (mmioSize physicalAddress size) .mmio)
      (vma.startOf chosen) chosen := by
  have trees := granted.trees geometry
  obtain ⟨node, leads⟩ := trees.free_leads run
  have busy : (middle.region chosen).type = .hardwareMmio := by rw [granted.here]
  by_cases here : node = chosen
  · rw [here] at leads
    exact leads
  have kept := trees.free_keeps leads run (fun same => here same.symm)
    (Or.inl (by rw [busy]; exact VmNodeType.noConfusion))
  have free := undone.free
  rw [kept, busy] at free
  cases free

theorem freePlan_congr {left right : Vma} (tree : BinaryTree Nat) (node : Nat)
    (same : ∀ other, (left.region other).type = (right.region other).type) :
    left.freePlan tree node = right.freePlan tree node := by
  unfold freePlan coalescing
  simp only [same]

theorem removeFromTree_freeList {removed : Vma} {tree : KTree}
    (run : removeFromTree tree node vma = .ok removed) : removed.freeList = vma.freeList := by
  unfold removeFromTree at run
  obtain ⟨_, _, rest⟩ := bind_eq_ok run
  cases rest
  exact setTree_freeList _ _ _ _

/-- The free list never leads into the MMIO range. -/
theorem MmioGranted.freeList_outside
    (granted : MmioGranted vma middle shape chain chosen physicalAddress size mmioFlag)
    (sound : vma.Sound goal shape (vma.freeList :: chain) []) :
    middle.freeList < treeStart .mmio ∨ treeLimit .mmio ≤ middle.freeList := by
  have apart : treeLimit .mmio ≤ kernelHeapStart := by decide
  have base := treeStart_pos .mmio
  have chained := granted.wired.layout.chained
  have subset : ∀ node ∈ vma.grantChain vma.freeList chosen (mmioSize physicalAddress size) chain,
      node ∈ vma.freeList :: chain := by
    intro node member
    unfold grantChain at member
    split at member
    · exact member
    · exact mem_cons_of_mem _ member
  cases rest : vma.grantChain vma.freeList chosen (mmioSize physicalAddress size) chain with
  | nil =>
    rw [rest] at chained
    have zero : middle.freeList = 0 := chained
    omega
  | cons head tail =>
    rw [rest] at chained subset
    have inLayout : head ∈ nodesOf shape (vma.freeList :: chain) [] :=
      mem_nodesOf.mpr (Or.inr (Or.inl (subset head mem_cons_self)))
    have inHeap := (sound.geometry.node_bounds (sound.layout.located head inLayout)).1
    rw [chained.1]
    omega

theorem neighbour_ne {nodes : List Nat} (neighbour : Option Nat)
    (nonzero : node ≠ 0) (outside : node ∉ nodes) (inside : ∀ other ∈ neighbour, other ∈ nodes) :
    node ≠ neighbour.getD 0 := by
  cases neighbour with
  | none => exact nonzero
  | some other =>
    intro same
    exact outside (same ▸ inside other rfl)

section

variable (undone : Undone vma middle after shape chosen)
  (granted : MmioGranted vma middle shape chain chosen physicalAddress size mmioFlag)
  (sound : vma.Sound goal shape (vma.freeList :: chain) [])

include undone granted sound

/-- The region was joined with a FREE successor, which is given back. -/
theorem Undone.successor
    (balanced : (shape .mmio).Balanced) (member : chosen ∈ (shape .mmio).inorder)
    {behind : Nat} {removed : Vma} {region : VmRegion}
    (inTree : behind ∈ (vma.grantShapes shape chosen (mmioSize physicalAddress size) .mmio).inorder)
    (other : behind ≠ chosen)
    (removal : removeFromTree .mmio behind
      ((middle.unmapped (vma.startOf chosen) (mmioSize physicalAddress size / 4096)).setRegion chosen
        region) = .ok removed)
    (final : after = removed.freeVmDsNode behind) :
    ¬ mmioSize physicalAddress size = vma.sizeOf chosen ∧ behind = vma.freeList ∧
      RemovableIn behind (vma.grantShapes shape chosen (mmioSize physicalAddress size) .mmio) := by
  have fresh : vma.freeList ∉ (shape .mmio).inorder := fun inOld =>
    sound.layout.not_chain inOld mem_cons_self
  have notOld : behind ∉ (shape .mmio).inorder := by
    intro old
    have kept := undone.others .mmio behind old other
    rw [final, freeVmDsNode_region, if_pos rfl, removeFromTree_freeList removal] at kept
    have startIs : middle.freeList = vma.startOf behind := congrArg VmRegion.startAddr kept
    have room := sound.geometry.bounds old
    have outside := granted.freeList_outside sound
    omega
  have split : ¬ mmioSize physicalAddress size = vma.sizeOf chosen ∧ behind = vma.freeList := by
    rw [grantShapes_mmio] at inTree
    unfold grantTree at inTree
    split at inTree
    · exact absurd inTree notOld
    rename_i inexact
    refine ⟨inexact, ?_⟩
    rcases mem_cons.mp ((splitTree_perm _ _ _ _ _).mem_iff.mp inTree) with new | old
    · exact new
    · exact absurd old notOld
  refine ⟨split.1, split.2, ?_⟩
  have wired := (granted.wired.unmapped (vma.startOf chosen)
    (mmioSize physicalAddress size / 4096)).setRegion (mem_grantShapes member _) region
  obtain ⟨newShape, newTrees, orders⟩ := undone.trees
  have rooted := newTrees.rooted .mmio
  have linked := newTrees.linked .mmio
  rw [final] at rooted linked
  refine wired.removable_of_order (grantShapes_short sound.geometry _ _ _)
    (grantShapes_balanced balanced _ _) inTree removal rooted
    (linked.transport (fun _ _ => rfl) (fun _ _ => rfl) (fun _ _ => rfl)) ?_
  rw [orders, grantShapes_mmio, split.2, vma.grantTree_erase split.1 fresh]

/-- A call that undoes the mapping joins the region with its leftover. -/
theorem Undone.rejoins (nonzero : vma.freeList ≠ 0)
    (balanced : (shape .mmio).Balanced) (member : chosen ∈ (shape .mmio).inorder)
    (run : vmaFreeMemoryFromTree .mmio (vma.startOf chosen) middle = .ok after) :
    vma.Rejoins (shape .mmio) chosen (mmioSize physicalAddress size) ∧
      after.vmm = (middle.vmm.vmmUnmap (vma.startOf chosen)
        (mmioSize physicalAddress size / 4096)).2 := by
  have different := sound.layout.ne_head member
  have trees := granted.trees sound.geometry
  have leads := undone.leads granted sound.geometry run
  obtain ⟨front, back, order⟩ := append_of_mem leads.member
  rw [granted.free_eq sound.geometry leads order] at run
  have chosenNonzero := (trees.linked .mmio).ne_zero leads.member
  have distinct := trees.distinct .mmio
  rw [order] at distinct
  have outside := (nodup_cons.mp (nodup_middle.mp distinct)).1
  have notNext : chosen ≠ back.head?.getD 0 := neighbour_ne _ chosenNonzero outside
    (fun other head => mem_append_right _ (mem_of_mem_head? head))
  have notPrevious : chosen ≠ front.getLast?.getD 0 := neighbour_ne _ chosenNonzero outside
    (fun other last => mem_append_left _ (mem_of_mem_getLast? last))
  have ahead : middle.isFree (front.getLast?.getD 0) = false := by
    rw [← Bool.not_eq_true]
    intro merged
    have type := coalesce_merged run merged notPrevious
    have free := undone.free
    have busy : ((middle.unmapped (vma.startOf chosen)
        (mmioSize physicalAddress size / 4096)).region chosen).type = .hardwareMmio :=
      congrArg VmRegion.type granted.here
    rw [type, busy] at free
    cases free
  refine ⟨?_, coalesce_vmm run⟩
  have plan := freePlan_congr (vma.grantShapes shape chosen (mmioSize physicalAddress size) .mmio)
    chosen (fun other => (granted.same nonzero different other).2)
  have search := (LeadsTo.congr (fun other => (granted.same nonzero different other).1)).mp leads
  unfold Rejoins
  rw [← grantShapes_mmio, ← plan]
  refine ⟨search, ?_⟩
  by_cases behind : middle.isFree (back.head?.getD 0) = true
  · rw [coalesce_behind (show (middle.unmapped (vma.startOf chosen)
      (mmioSize physicalAddress size / 4096)).isFree _ = true from behind) ahead] at run
    obtain ⟨removed, removal, final⟩ := bind_eq_ok run
    cases head : back.head? with
    | none =>
      rw [head] at behind
      cases behind
    | some next =>
      rw [head] at behind removal final notNext
      have inTree : next ∈ (vma.grantShapes shape chosen (mmioSize physicalAddress size)
          .mmio).inorder := by
        rw [order]
        exact mem_append_right _ (mem_cons_of_mem _ (mem_of_mem_head? head))
      obtain ⟨inexact, isNew, removable⟩ := undone.successor granted sound balanced member inTree
        notNext.symm removal (Except.ok.inj final).symm
      have rest : vma.leftover chosen (mmioSize physicalAddress size) = [next] := by
        unfold leftover
        rw [if_neg inexact, isNew]
      rw [rest]
      refine ⟨(trees.freePlan_behind_iff order).mpr ⟨head, behind, ahead⟩, ?_⟩
      intro node isNode
      rw [mem_singleton.mp isNode]
      exact removable
  · have alone := Bool.eq_false_iff.mpr behind
    rw [coalesce_lone (show (middle.unmapped (vma.startOf chosen)
      (mmioSize physicalAddress size / 4096)).isFree _ = false from alone) ahead] at run
    have exactly : mmioSize physicalAddress size = vma.sizeOf chosen := by
      rw [← undone.sameSize, ← Except.ok.inj run]
      unfold sizeOf
      rw [setRegion_region, if_pos rfl]
      exact (congrArg VmRegion.size granted.here).symm
    have rest : vma.leftover chosen (mmioSize physicalAddress size) = [] := if_pos exactly
    rw [rest]
    exact ⟨(trees.freePlan_lone_iff order).mpr ⟨alone, ahead⟩, nofun⟩

end

theorem MmioGranted.kept
    (granted : MmioGranted vma middle shape chain chosen physicalAddress size mmioFlag)
    (sound : vma.Sound goal shape (vma.freeList :: chain) []) (nonzero : vma.freeList ≠ 0)
    (member : chosen ∈ (shape .mmio).inorder) {tree : KTree}
    (inTree : node ∈ (shape tree).inorder) (other : node ≠ chosen) :
    middle.region node = vma.region node := by
  have different := sound.layout.ne_head member
  have notNew := sound.layout.ne_head inTree
  rw [granted.others node other, grantRegion_other nonzero different other notNew]

theorem MmioGranted.leftover_size
    (granted : MmioGranted vma middle shape chain chosen physicalAddress size mmioFlag)
    (nonzero : vma.freeList ≠ 0) (different : chosen ≠ vma.freeList)
    (inexact : ¬ mmioSize physicalAddress size = vma.sizeOf chosen) :
    (middle.region vma.freeList).size =
      wordSub (vma.sizeOf chosen) (mmioSize physicalAddress size) := by
  rw [granted.others _ different.symm]
  unfold grantRegion
  rw [if_neg inexact, cut_region _ nonzero different, if_neg different.symm, if_pos rfl]
  unfold sizeOf
  rw [taken_region vma different]

theorem word_wordSub_add {whole part : Nat} (wholeSmall : whole < 2 ^ 64) (partSmall : part < 2 ^ 64) :
    word (wordSub whole part + part) = whole := by
  unfold wordSub
  rw [word_of_lt partSmall]
  unfold word
  omega

theorem mmioSize_small (physicalAddress size : Nat) : mmioSize physicalAddress size < 2 ^ 64 := by
  unfold mmioSize word
  omega

section Backward

variable {paths : Finset (List (Fin 512))} {front back : List Nat}
  (granted : MmioGranted vma middle shape chain chosen physicalAddress size mmioFlag)
  (pathsShort : ∀ path ∈ paths, path.length ≤ 3)
  (ranged : vma.vmm.Ranged paths (vma.startOf chosen) (mmioSize physicalAddress size / 4096))
  (absent : ∀ offset < mmioSize physicalAddress size / 4096,
    vma.vmm.leaf (vma.startOf chosen + 4096 * offset) = none)

include granted pathsShort ranged absent

/-- The tables are undone with the region. -/
theorem MmioGranted.translations
    (tables : after.vmm = (middle.vmm.vmmUnmap (vma.startOf chosen)
      (mmioSize physicalAddress size / 4096)).2) (vAddr : Nat) :
    (middle.vmm.leaf vAddr ≠ vma.vmm.leaf vAddr → after.vmm.leaf vAddr = none) ∧
      after.vmm.leaf vAddr = vma.vmm.leaf vAddr ∧
      after.vmm.hugeAt vAddr = vma.vmm.hugeAt vAddr := by
  rw [tables, granted.tables]
  have cleared := Vmm.vmmUnmap_vmmMap_clears (vmmFlags_small mmioFlag) pathsShort
    (physicalAddress / 4096 * 4096) ranged vAddr
  exact ⟨cleared.1, (Vmm.vmmUnmap_vmmMap_iff (vmmFlags_small mmioFlag) pathsShort
    (physicalAddress / 4096 * 4096) ranged).mpr absent vAddr, cleared.2⟩

variable (sound : vma.Sound goal shape (vma.freeList :: chain) []) (nonzero : vma.freeList ≠ 0)
  (member : chosen ∈ (shape .mmio).inorder)

include sound nonzero member

/-- What a free has to leave for the mapping to be undone. -/
theorem MmioGranted.undone
    (trees : ∃ newShape, after.KernelTrees newShape ∧
      ∀ tree, (newShape tree).inorder = (shape tree).inorder)
    (here : after.region chosen =
      { middle.region chosen with size := vma.sizeOf chosen, type := .free })
    (others : ∀ tree, ∀ node ∈ (shape tree).inorder, node ≠ chosen →
      after.region node = middle.region node)
    (tables : after.vmm = (middle.vmm.vmmUnmap (vma.startOf chosen)
      (mmioSize physicalAddress size / 4096)).2) : Undone vma middle after shape chosen where
  trees := trees
  free := by rw [here]
  sameStart := by
    unfold startOf
    rw [here, granted.here]
  sameSize := by
    unfold sizeOf
    rw [here]
    rfl
  others := by
    intro tree node inTree other
    rw [others tree node inTree other]
    exact granted.kept sound nonzero member inTree other
  removed := fun vAddr => (granted.translations pathsShort ranged absent tables vAddr).1
  translations := fun vAddr => (granted.translations pathsShort ranged absent tables vAddr).2

/-- A request of the size of its region: the region becomes FREE again. -/
theorem MmioGranted.undoes_whole
    (exactly : mmioSize physicalAddress size = vma.sizeOf chosen)
    (alone : middle.isFree (back.head?.getD 0) = false)
    (ahead : middle.isFree (front.getLast?.getD 0) = false) :
    ∃ after, coalesce .mmio chosen (back.head?.getD 0) (front.getLast?.getD 0)
        (middle.unmapped (vma.startOf chosen) (mmioSize physicalAddress size / 4096)) = .ok after ∧
      Undone vma middle after shape chosen := by
  refine ⟨_, coalesce_lone alone ahead, ?_⟩
  have sameTree : vma.grantShapes shape chosen (mmioSize physicalAddress size) = shape := by
    unfold grantShapes grantTree
    rw [if_pos exactly, update_eq_self]
  have wired := granted.wired.unmapped (vma.startOf chosen) (mmioSize physicalAddress size / 4096)
  rw [sameTree] at wired
  apply granted.undone pathsShort ranged absent sound nonzero member
  · refine ⟨shape, (wired.setRegion member _).kernelTrees ?_, fun _ => rfl⟩
    intro tree
    have length := sound.geometry.length_le tree
    unfold treeFuel
    omega
  · have sizeIs : (middle.region chosen).size = vma.sizeOf chosen := by
      rw [granted.here]
      exact exactly
    rw [setRegion_region, if_pos rfl, ← sizeIs]
    rfl
  · intro tree node _ other
    rw [setRegion_region, if_neg other]
    rfl
  · rfl

/-- A request that was split off: the region takes over its leftover. -/
theorem MmioGranted.undoes_split (balanced : (shape .mmio).Balanced)
    (inexact : ¬ mmioSize physicalAddress size = vma.sizeOf chosen)
    (head : back.head? = some vma.freeList) (behind : middle.isFree vma.freeList = true)
    (ahead : middle.isFree (front.getLast?.getD 0) = false)
    (removable : RemovableIn vma.freeList
      (vma.grantShapes shape chosen (mmioSize physicalAddress size) .mmio)) :
    ∃ after, coalesce .mmio chosen (back.head?.getD 0) (front.getLast?.getD 0)
        (middle.unmapped (vma.startOf chosen) (mmioSize physicalAddress size / 4096)) = .ok after ∧
      Undone vma middle after shape chosen := by
  have different := sound.layout.ne_head member
  have fresh : vma.freeList ∉ (shape .mmio).inorder := fun inOld =>
    sound.layout.not_chain inOld mem_cons_self
  have few := sound.geometry.length_le .mmio
  have chainFew := sound.layout.chain_few sound.geometry
  have room := sound.geometry.bounds member
  have limit := treeLimit_lt .mmio
  have newInside : vma.freeList ∈ (vma.grantShapes shape chosen
      (mmioSize physicalAddress size) .mmio).inorder := by
    rw [grantShapes_mmio]
    unfold grantTree
    rw [if_neg inexact]
    exact (splitTree_perm _ _ _ _ _).mem_iff.mpr mem_cons_self
  have short := grantShapes_short sound.geometry chosen (mmioSize physicalAddress size) .mmio
  have total : word ((middle.region vma.freeList).size + (middle.region chosen).size) =
      vma.sizeOf chosen := by
    rw [granted.leftover_size nonzero different inexact, granted.here]
    exact word_wordSub_add (by omega) (mmioSize_small _ _)
  have wired := (granted.wired.unmapped (vma.startOf chosen)
    (mmioSize physicalAddress size / 4096)).setRegion (mem_grantShapes member _)
      { middle.region chosen with
        size := word ((middle.region vma.freeList).size + (middle.region chosen).size)
        type := .free }
  obtain ⟨result, detached⟩ := (wired.deleted_cases short (grantShapes_balanced balanced _ _)
    newInside).2 removable
  obtain ⟨nodes, removal, removedWired⟩ := wired.removed short detached
  have chainLength : (vma.grantChain vma.freeList chosen (mmioSize physicalAddress size)
      chain).length + 1 < 2 ^ 64 := by
    unfold grantChain
    rw [if_neg inexact]
    rw [length_cons] at chainFew
    omega
  have freedWired := removedWired.freed nonzero chainLength
  have result_order : result.inorder = (shape .mmio).inorder := by
    obtain ⟨before, later, order⟩ := append_of_mem newInside
    have nodup := wired.layout.tree_nodup .mmio
    have erased := vma.grantTree_erase inexact fresh
    rw [← grantShapes_mmio, order, erase_append_right, erase_cons_head] at erased
    · rw [detach_inorder nodup order detached]
      exact erased
    · rw [order] at nodup
      intro inBefore
      exact (nodup_cons.mp (nodup_middle.mp nodup)).1 (mem_append_left _ inBefore)
  rw [head, Option.getD_some, coalesce_behind (show (middle.unmapped (vma.startOf chosen)
    (mmioSize physicalAddress size / 4096)).isFree _ = true from behind) ahead]
  refine ⟨_, congrArg (fun step => step >>= fun removed =>
    Except.ok (freeVmDsNode removed vma.freeList)) removal, ?_⟩
  apply granted.undone pathsShort ranged absent sound nonzero member
  · refine ⟨_, freedWired.kernelTrees ?_, ?_⟩
    · intro tree
      cases tree with
      | heap =>
        have length := sound.geometry.length_le .heap
        rw [update_of_ne KTree.noConfusion, grantShapes_heap]
        unfold treeFuel
        omega
      | mmio =>
        rw [update_self, result_order]
        unfold treeFuel
        omega
    · intro tree
      cases tree with
      | heap => rw [update_of_ne KTree.noConfusion, grantShapes_heap]
      | mmio => rw [update_self, result_order]
  · rw [freeVmDsNode_region, if_neg different, removeFromTree_region removal, setRegion_region,
      if_pos rfl, total]
  · intro tree node inTree other
    have notNew := sound.layout.ne_head inTree
    rw [freeVmDsNode_region, if_neg notNew, removeFromTree_region removal, setRegion_region,
      if_neg other]
    rfl
  · exact setTree_vmm _ _ _ _

/-- Where the region is joined again, the mapping is undone. -/
theorem MmioGranted.undoes (balanced : (shape .mmio).Balanced)
    (rejoins : vma.Rejoins (shape .mmio) chosen (mmioSize physicalAddress size)) :
    ∃ after, vmaFreeMemoryFromTree .mmio (vma.startOf chosen) middle = .ok after ∧
      Undone vma middle after shape chosen := by
  have different := sound.layout.ne_head member
  have trees := granted.trees sound.geometry
  obtain ⟨search, planned, removable⟩ := rejoins
  rw [← grantShapes_mmio] at search planned removable
  have leads := (LeadsTo.congr (fun other => (granted.same nonzero different other).1)).mpr search
  rw [← freePlan_congr (vma.grantShapes shape chosen (mmioSize physicalAddress size) .mmio)
    chosen (fun other => (granted.same nonzero different other).2)] at planned
  obtain ⟨front, back, order⟩ := append_of_mem leads.member
  rw [granted.free_eq sound.geometry leads order]
  by_cases exactly : mmioSize physicalAddress size = vma.sizeOf chosen
  · have rest : vma.leftover chosen (mmioSize physicalAddress size) = [] := if_pos exactly
    rw [rest] at planned
    obtain ⟨alone, ahead⟩ := (trees.freePlan_lone_iff order).mp planned
    exact granted.undoes_whole pathsShort ranged absent sound nonzero member exactly alone ahead
  have rest : vma.leftover chosen (mmioSize physicalAddress size) = [vma.freeList] :=
    if_neg exactly
  rw [rest] at planned removable
  obtain ⟨head, behind, ahead⟩ := (trees.freePlan_behind_iff order).mp planned
  exact granted.undoes_split pathsShort ranged absent sound nonzero member balanced exactly head
    behind ahead (removable _ mem_cons_self)

end Backward

/-- Growing the slab for the split takes a page of the heap, which stays. -/
theorem kmapMmio_grown_stays (sound : vma.Sound goal shape chain [])
    (stocked : minimumAvailableNodes ≤ chain.length) (calm : vma.inReplenishCycle = false)
    (small : ∀ address, vma.vmm.hugeAt address = false)
    (found : vma.candidate (shape .mmio) = some chosen)
    (grows : vma.GrowsSlab chosen (mmioSize physicalAddress size)) {virtual : Nat}
    (run : kmapMmio physicalAddress size mmioFlag vma = .ok (virtual, middle))
    (freed : kunmapMmio virtual middle = .ok after) : ¬ Undone vma middle after shape chosen := by
  intro undone
  have member := (candidate_free found).1
  have room := sound.geometry.bounds member
  obtain ⟨carved, carving, middleIs, virtualIs⟩ := kmapMmio_returns sound found run
  have can : (vma.replenishing vma.freeList).CanReplenish shape := by
    by_contra cannot
    obtain ⟨fault, failed⟩ := carve_not_at_hand sound stocked calm small
      (fun atHand => cannot ((atHand.resolve_left grows.1).resolve_left (Nat.not_lt.mpr grows.2)))
      .mmio .hardwareMmio mmioFlag.vmmFlags
    rw [carving] at failed
    cases failed
  obtain ⟨slab, state, carvingAgain, grown⟩ := carve_grows sound stocked calm small member grows can
    .hardwareMmio mmioFlag.vmmFlags
  cases carving.symm.trans carvingAgain
  obtain ⟨newShape, newChain, wired, few, inMmio, node, inOld, inHeap, wasFree, isRegular⟩ :=
    grown.trees
  have startIs : carved.startOf chosen = vma.startOf chosen := by
    unfold startOf
    rw [grown.here]
  rw [virtualIs startIs, kunmapMmio_tree (by omega) (by omega)] at freed
  have trees : middle.KernelTrees newShape := by
    rw [middleIs]
    apply (mmioBacked_wired wired inMmio).kernelTrees
    intro tree
    have length := sound.geometry.length_le tree
    have more := few tree
    unfold treeFuel
    omega
  have outside : node ∉ (newShape .mmio).inorder := fun inside =>
    wired.layout.trees_apart (KTree.noConfusion : KTree.heap ≠ .mmio) inside inHeap
  have notChosen : node ≠ chosen := fun same => outside (same ▸ inMmio)
  obtain ⟨hit, leads⟩ := trees.free_leads freed
  have kept := trees.free_keeps leads freed (fun same : node = hit => outside (same ▸ leads.member))
    (Or.inr outside)
  have same := undone.others .heap node inOld notChosen
  rw [kept, middleIs, mmioBacked_region, if_neg notChosen] at same
  rw [same, wasFree] at isRegular
  cases isRegular

end Undo

/-- `kunmap_mmio` of the address that `kmap_mmio` handed out undoes the mapping exactly for
these states and addresses. -/
theorem kunmapMmio_undoes_iff (vma : Vma) (shape : Shapes) (chain : List Nat)
    (goal : VmRegion → Option Nat → Option Nat → Nat → Prop)
    (sound : vma.Sound goal shape chain []) (stocked : minimumAvailableNodes ≤ chain.length)
    (calm : vma.inReplenishCycle = false) (balanced : (shape .mmio).Balanced)
    (formed : vma.vmm.WellFormed) (small : ∀ address, vma.vmm.hugeAt address = false)
    (physicalAddress size chosen : Nat) (mmioFlag : MmioFlags)
    (found : vma.candidate (shape .mmio) = some chosen)
    (frames : vma.vmm.Supplied (Vmm.rangePaths (vma.startOf chosen)
      (mmioSize physicalAddress size / 4096)))
    (virtual : Nat) (middle : Vma)
    (run : kmapMmio physicalAddress size mmioFlag vma = .ok (virtual, middle)) :
    (∃ after, kunmapMmio virtual middle = .ok after ∧ Undone vma middle after shape chosen) ↔
      vma.Undoable shape chosen physicalAddress size := by
  have member := (candidate_free found).1
  have room := sound.geometry.bounds member
  have startAligned := sound.geometry.aligned member
  by_cases grows : vma.GrowsSlab chosen (mmioSize physicalAddress size)
  · constructor
    · rintro ⟨after, freed, undone⟩
      exact absurd undone (kmapMmio_grown_stays sound stocked calm small found grows run freed)
    · intro undoable
      exact absurd grows undoable.2.1
  obtain ⟨virtualIs, rest, chainIs, nonzero, granted⟩ :=
    kmapMmio_granted sound stocked found grows run
  rw [chainIs] at sound
  rw [virtualIs, kunmapMmio_tree (by omega) (by omega)]
  have pathsShort : ∀ path ∈ Vmm.rangePaths (vma.startOf chosen)
      (mmioSize physicalAddress size / 4096), path.length ≤ 3 :=
    fun path inRange => Vmm.rangePaths_short inRange
  have ranged : vma.vmm.Ranged (Vmm.rangePaths (vma.startOf chosen)
      (mmioSize physicalAddress size / 4096)) (vma.startOf chosen)
      (mmioSize physicalAddress size / 4096) :=
    ⟨formed, frames, fun offset inRange path inWalk =>
      Finset.mem_biUnion.mpr ⟨offset, Finset.mem_range.mpr inRange, inWalk⟩,
      fun offset _ => small _⟩
  constructor
  · rintro ⟨after, freed, undone⟩
    have aligned : physicalAddress % 4096 = 0 := by
      obtain ⟨node, leads⟩ := (granted.trees sound.geometry).free_leads freed
      have inTree := leads.member
      rw [grantShapes_mmio] at inTree
      have congruent := leads.congruent
      rw [granted.aligned sound nonzero member inTree] at congruent
      omega
    rw [aligned, Nat.add_zero] at freed
    obtain ⟨rejoins, tables⟩ := undone.rejoins granted sound nonzero balanced member freed
    refine ⟨aligned, grows, ?_, rejoins⟩
    apply (Vmm.vmmUnmap_vmmMap_iff (vmmFlags_small mmioFlag) pathsShort
      (physicalAddress / 4096 * 4096) ranged).mp
    intro other
    rw [← (undone.translations other).1, tables, granted.tables]
  · rintro ⟨aligned, _, absent, rejoins⟩
    rw [aligned, Nat.add_zero]
    exact granted.undoes pathsShort ranged absent sound nonzero member balanced rejoins

/-- Two pages right after `vma_init`. -/
theorem kunmapMmio_undoes_iff_twoPages : ∃ initial virtual middle after,
    vmaInit Vmm.emptyTables = .ok initial ∧
    kmapMmio 0x5000 0x2000 .default { initial with vmm := firstPageTables } =
      .ok (virtual, middle) ∧
    kunmapMmio virtual middle = .ok after ∧
    Undone { initial with vmm := firstPageTables } middle after initial.shapes
      (kernelHeapStart + 176) := by
  obtain ⟨vma, shape, chain, started, steady⟩ := vmaInit_steady Vmm.emptyTables
  obtain ⟨initial, same, found, frames, balanced, undoable, returns⟩ :
      ∃ initial, vmaInit Vmm.emptyTables = .ok initial ∧
        initial.candidate (initial.shapes .mmio) = some (kernelHeapStart + 176) ∧
        (firstPageTables.missingTables (Vmm.rangePaths (initial.startOf (kernelHeapStart + 176))
          (mmioSize 0x5000 0x2000 / 4096))).card ≤ (Vmm.freeFrames firstPageTables.pmm).card ∧
        (initial.shapes .mmio).Balanced ∧
        ({ initial with vmm := firstPageTables } : Vma).Undoable initial.shapes
          (kernelHeapStart + 176) 0x5000 0x2000 ∧
        (kmapMmio 0x5000 0x2000 .default
          { initial with vmm := firstPageTables }).toOption.isSome = true :=
    exists_of_checked _ (by decide +kernel)
  rw [started] at same
  cases same
  have shapes := steady.sound.shapes_eq
  rw [shapes] at found balanced undoable
  have sound : ({ vma with vmm := firstPageTables } : Vma).Sound _ shape chain [] :=
    steady.sound.sameNodes rfl
  cases run : kmapMmio 0x5000 0x2000 .default { vma with vmm := firstPageTables } with
  | error fault =>
    rw [run] at returns
    cases returns
  | ok result =>
    obtain ⟨virtual, middle⟩ := result
    obtain ⟨after, freed, undone⟩ := (kunmapMmio_undoes_iff { vma with vmm := firstPageTables }
      shape chain _ sound steady.stocked steady.calm balanced firstPageTables_wellFormed
      firstPageTables_small 0x5000 0x2000 (kernelHeapStart + 176) .default found frames virtual
      middle run).mpr undoable
    refine ⟨vma, virtual, middle, after, started, run, freed, ?_⟩
    rw [shapes]
    exact undone

/-- One byte at an address that is not page-aligned, right after `vma_init`: the address
handed out is no start of a region, and `kunmap_mmio` dereferences NULL. -/
theorem kunmapMmio_misses_offset : ∃ initial virtual middle,
    vmaInit Vmm.emptyTables = .ok initial ∧
    kmapMmio 0x5001 1 .default initial = .ok (virtual, middle) ∧ virtual ≠ 0 ∧
    ¬ ∃ after, kunmapMmio virtual middle = .ok after := by
  obtain ⟨initial, started, checked⟩ : ∃ initial, vmaInit Vmm.emptyTables = .ok initial ∧
      (kmapMmio 0x5001 1 .default initial).toOption.any (fun result =>
        decide (result.1 ≠ 0 ∧ (kunmapMmio result.1 result.2).toOption.isNone = true)) = true :=
    exists_of_checked _ (by decide +kernel)
  cases run : kmapMmio 0x5001 1 .default initial with
  | error fault =>
    rw [run] at checked
    cases checked
  | ok result =>
    rw [run] at checked
    have facts := of_decide_eq_true checked
    refine ⟨initial, result.1, result.2, started, run, facts.1, ?_⟩
    rintro ⟨after, freed⟩
    have stops := facts.2
    rw [freed] at stops
    cases stops

end Vma

end Fesos
