/-
The trees after a request that returned, whichever way its node was found.

A node comes off the free list as long as enough of them stay; otherwise the slab is
grown by a page of the heap first.  Either way the links stay in order, no node leaves
its tree, and a request to the heap writes no node of the MMIO tree.
-/

import Fesos.VmaRefusal
import Fesos.VmaSupply

set_option autoImplicit false

namespace Fesos

open BinaryTree Library Function
open List hiding nil

namespace Vma

section Carved

variable {vma carved : Vma} {shape : Shapes} {chain : List Nat} {tree : KTree}
  {node size flags : Nat} {type : VmNodeType}
  {goal : SummaryGoal VmRegion Nat}

theorem Sound.any {loose : List Nat} (sound : vma.Sound goal shape chain loose) :
    vma.Sound AnySummary shape chain loose :=
  ⟨sound.layout, sound.geometry, sound.wired.depths⟩

structure Carves (vma carved : Vma) (tree : KTree) (shape newShape : Shapes) (newChain : List Nat) :
    Prop where
  wired : carved.Wired newShape newChain []
  chainFew : newChain.length < 2 ^ 35
  few : ∀ owner, (newShape owner).inorder.length ≤ (shape owner).inorder.length + 2
  kept : ∀ owner, ∀ other ∈ (shape owner).inorder, other ∈ (newShape owner).inorder
  aside : tree = .heap → newShape .mmio = shape .mmio ∧ vma.Spares carved (shape .mmio)
  calm : carved.inReplenishCycle = false

/-- The node is at hand, or not needed. -/
theorem Wired.carves_plain (wired : vma.Wired shape chain []) (chainFew : chain.length < 2 ^ 35)
    (short : (shape tree).inorder.length ≤ treeFuel) (calm : vma.inReplenishCycle = false)
    (member : node ∈ (shape tree).inorder)
    (plenty : ¬ size = vma.sizeOf node → minimumAvailableNodes < chain.length)
    (run : carve allocVmDsNode tree size type flags node vma = .ok carved) :
    ∃ newShape newChain, Carves vma carved tree shape newShape newChain ∧
      chain.length ≤ newChain.length + 1 := by
  cases chain with
  | nil =>
    have exactly : size = vma.sizeOf node := by
      by_contra inexact
      exact Nat.not_lt_zero _ (plenty inexact)
    rw [carve, if_pos (show size = (vma.region node).size from exactly)] at run
    cases run
    refine ⟨shape, [], ⟨wired.setRegion member _, chainFew, fun _ => Nat.le_add_right _ _,
      fun _ _ inside => inside, ?_, calm⟩, Nat.zero_le _⟩
    intro isHeap
    refine ⟨rfl, Spares.of_outside (setData_elsewhere vma.nodes node _) ?_⟩
    intro other inMmio inside
    rw [isHeap] at member
    exact wired.layout.trees_apart (KTree.noConfusion : KTree.mmio ≠ .heap) member
      (mem_singleton.mp inside ▸ inMmio)
  | cons first rest =>
    have nonzero := wired.layout.chained.2.1
    obtain ⟨after, again, carvedWired, _regions, _vmm, _slabs, flag, spares⟩ :=
      wired.carve_taken nonzero (by omega) short member
        (fun inexact => allocVmDsNode_takes wired.layout (by omega) (Nat.lt_succ_iff.mp (plenty inexact)))
        type flags
    cases run.symm.trans again
    have length := vma.grantTree_length (shape tree) first node size
    have chainLength := vma.grantChain_length first node size rest
    refine ⟨_, _, ⟨carvedWired, Nat.lt_of_le_of_lt chainLength chainFew, ?_, ?_, ?_,
      flag.trans calm⟩, ?_⟩
    · intro owner
      by_cases here : owner = tree
      · rw [here, update_self]
        omega
      · rw [update_of_ne here]
        omega
    · intro owner other inside
      by_cases here : owner = tree
      · rw [here] at inside ⊢
        rw [update_self]
        exact grantTree_subset inside
      · rw [update_of_ne here]
        exact inside
    · intro isHeap
      have notMmio : KTree.mmio ≠ tree := by
        rw [isHeap]
        exact KTree.noConfusion
      exact ⟨update_of_ne notMmio _ _, spares .mmio notMmio⟩
    · unfold grantChain
      split
      · exact Nat.le_succ _
      · exact Nat.le_refl _

/-- The slab was grown. -/
theorem carves_grown (sound : vma.Sound goal shape chain [])
    (stocked : minimumAvailableNodes ≤ chain.length) (low : chain.length ≤ minimumAvailableNodes)
    (calm : vma.inReplenishCycle = false) (member : node ∈ (shape tree).inorder)
    (inexact : ¬ size = vma.sizeOf node)
    (run : carve allocVmDsNode tree size type flags node vma = .ok carved) :
    ∃ newShape newChain, Carves vma carved tree shape newShape newChain ∧
      minimumAvailableNodes < newChain.length := by
  have five : minimumAvailableNodes = 5 := rfl
  have perPage : nodesPerPage = 46 := rfl
  cases chain with
  | nil => cases stocked
  | cons first rest =>
    cases rest with
    | nil =>
      rw [length_singleton] at stocked
      omega
    | cons second rest =>
      rw [length_cons] at low
      cases found : vma.candidate (shape .heap) with
      | none =>
        rw [carve, if_neg (show ¬ size = (vma.region node).size from inexact),
          alloc_no_slab sound (by omega) calm found] at run
        cases run
      | some slab =>
        obtain ⟨granting, granted, supplying⟩ := alloc_slab sound (by omega) calm found
        have again := run
        rw [carve, if_neg (show ¬ size = (vma.region node).size from inexact), supplying]
          at again
        cases touching : touch (vma.startOf slab + 40) granting with
        | error fault =>
          rw [touching] at again
          cases again
        | ok touched =>
          obtain ⟨vmm, touchedIs⟩ := touch_ok touching
          rw [touching, ok_bind, touchedIs] at supplying
          have grown := granted.grown sound found vmm
          obtain ⟨newChain, many, fewer, wired⟩ := grown.wired
          have nonzero := sound.layout.chained.2.1
          have stays : ∀ owner, ∀ other ∈ (shape owner).inorder, other ∈
              (Function.update shape .heap ((vma.replenishing first).grantTree
                (shape .heap) second slab 4096) owner).inorder := by
            intro owner other inside
            cases owner with
            | heap =>
              rw [update_self]
              exact grantTree_subset inside
            | mmio =>
              rw [update_of_ne KTree.noConfusion]
              exact inside
          have few : ∀ owner, (Function.update shape .heap
              ((vma.replenishing first).grantTree (shape .heap) second slab 4096)
              owner).inorder.length ≤ (shape owner).inorder.length + 1 := by
            intro owner
            cases owner with
            | heap => exact grown.few
            | mmio =>
              rw [update_of_ne KTree.noConfusion]
              exact Nat.le_succ _
          have short := sound.geometry.short tree
          have treeFew := few tree
          obtain ⟨after, returned, carvedWired, reshaped, spares⟩ := wired.carve_split
            nonzero (by omega) (stays tree node member) inexact supplying type flags
          cases run.symm.trans returned
          refine ⟨_, newChain, ⟨carvedWired, fewer, ?_, ?_, ?_, reshaped.inReplenishCycle⟩,
            by omega⟩
          · intro owner
            have ownerFew := few owner
            by_cases here : owner = tree
            · rw [here, update_self, (splitTree_perm _ _ _ _ _).length_eq,
                length_cons]
              omega
            · rw [update_of_ne here]
              omega
          · intro owner other inside
            by_cases here : owner = tree
            · rw [here] at inside ⊢
              rw [update_self]
              exact (splitTree_perm _ _ _ _ _).mem_iff.mpr
                (mem_cons_of_mem _ (stays tree other inside))
            · rw [update_of_ne here]
              exact stays owner other inside
          · intro isHeap
            have notMmio : KTree.mmio ≠ tree := by
              rw [isHeap]
              exact KTree.noConfusion
            have sameMmio := grown.sameShape
            refine ⟨(update_of_ne notMmio _ _).trans sameMmio, ?_⟩
            have later := spares .mmio notMmio
            rw [sameMmio] at later
            exact grown.spares.trans later

end Carved

/-! ### Requests one after the other -/

/-- The state is one in which a request can be followed: there are nodes to spare, or the
regions are in order and the slab can be grown. -/
structure Ready (vma : Vma) (shape : Shapes) (chain : List Nat) : Prop where
  wired : vma.Wired shape chain []
  chainFew : chain.length < 2 ^ 35
  short : ∀ tree, (shape tree).inorder.length ≤ 2 ^ 22 + 2
  calm : vma.inReplenishCycle = false
  nodes : minimumAvailableNodes < chain.length ∨
    vma.Geometry shape ∧ minimumAvailableNodes ≤ chain.length

def SplitsInOrder (vma : Vma) (shape : BinaryTree Nat) (node size : Nat) : Prop :=
  0 < size ∧ size < vma.sizeOf node ∧ vma.OrdersCorrectly shape (vma.startOf node + size)

instance decidableSplitsInOrder (vma : Vma) (shape : BinaryTree Nat) (node size : Nat) :
    Decidable (vma.SplitsInOrder shape node size) :=
  inferInstanceAs (Decidable (_ ∧ _ ∧ _))

section Ready

variable {vma carved : Vma} {shape newShape : Shapes} {chain newChain : List Nat} {tree : KTree}
  {node size flags : Nat} {type : VmNodeType}
  {goal : SummaryGoal VmRegion Nat}

theorem Sound.ready (sound : vma.Sound goal shape chain [])
    (stocked : minimumAvailableNodes ≤ chain.length) (calm : vma.inReplenishCycle = false) :
    vma.Ready shape chain where
  wired := sound.wired
  chainFew := Nat.lt_of_le_of_lt (sound.layout.chain_few sound.geometry) (by decide)
  short := fun tree => Nat.le_add_right_of_le (sound.geometry.length_le tree)
  calm := calm
  nodes := Or.inr ⟨sound.geometry, stocked⟩

theorem Ready.withTables (ready : vma.Ready shape chain) (vmm : Vmm) :
    ({ vma with vmm := vmm } : Vma).Ready shape chain where
  wired := ready.wired.sameNodes rfl
  chainFew := ready.chainFew
  short := ready.short
  calm := ready.calm
  nodes := by
    rcases ready.nodes with plenty | ⟨geometry, stocked⟩
    · exact Or.inl plenty
    · exact Or.inr ⟨geometry.transport (fun _ _ _ => rfl) rfl, stocked⟩

theorem Ready.kernelTrees (ready : vma.Ready shape chain) : vma.KernelTrees shape := by
  apply ready.wired.kernelTrees
  intro tree
  have short := ready.short tree
  unfold treeFuel
  omega

theorem Ready.keepsStarts (ready : vma.Ready shape chain) :
    KeepsStarts shape vma allocVmDsNode := by
  rcases ready.nodes with plenty | ⟨geometry, _⟩
  · have chainFew := ready.chainFew
    cases chain with
    | nil => cases plenty
    | cons first rest =>
      intro new middle supply
      rw [allocVmDsNode_takes ready.wired.layout (by omega) (Nat.lt_succ_iff.mp plenty)] at supply
      cases supply
      refine ⟨ready.wired.layout.chained.2.1, ?_⟩
      intro owner other inTree
      have notNew := ready.wired.layout.ne_head inTree
      exact ⟨notNew, congrArg VmRegion.startAddr (taken_region vma notNew)⟩
  · exact allocVmDsNode_keeps
      (show vma.Sound AnySummary shape chain [] from ⟨ready.wired.layout, geometry, ready.wired.depths⟩)

theorem Ready.carves (ready : vma.Ready shape chain) (member : node ∈ (shape tree).inorder)
    (run : carve allocVmDsNode tree size type flags node vma = .ok carved) :
    ∃ newShape newChain, Carves vma carved tree shape newShape newChain := by
  have short := ready.short tree
  by_cases plenty : ¬ size = vma.sizeOf node → minimumAvailableNodes < chain.length
  · obtain ⟨newShape, newChain, carves, _⟩ := ready.wired.carves_plain ready.chainFew
      (by unfold treeFuel; omega) ready.calm member plenty run
    exact ⟨newShape, newChain, carves⟩
  obtain ⟨inexact, low⟩ := Classical.not_imp.mp plenty
  obtain ⟨geometry, stocked⟩ := ready.nodes.resolve_left low
  obtain ⟨newShape, newChain, carves, _⟩ := carves_grown
    (show vma.Sound AnySummary shape chain [] from ⟨ready.wired.layout, geometry, ready.wired.depths⟩)
    stocked (Nat.not_lt.mp low) ready.calm member inexact run
  exact ⟨newShape, newChain, carves⟩

/-- The links decide the trees, so a state in order is in order for the trees followed. -/
theorem Carves.in_order {other : Shapes} {rest : List Nat}
    (carves : Carves vma carved tree shape newShape newChain)
    (sound : carved.Sound goal other rest []) :
    carved.Geometry newShape ∧ newChain.length = rest.length := by
  have layout := carves.wired.layout
  have sameShape : other = newShape := by
    funext owner
    apply (sound.layout.linked owner).unique (layout.linked owner)
    rw [← sound.layout.rooted, ← layout.rooted]
  constructor
  · rw [← sameShape]
    exact sound.geometry
  · rw [← layout.counted, ← sound.layout.counted]

theorem carve_whole_sound (sound : vma.Sound goal shape chain [])
    (member : node ∈ (shape tree).inorder) (free : (vma.region node).type = .free)
    (busy : type ≠ .free) (exactly : size = vma.sizeOf node)
    (run : carve allocVmDsNode tree size type flags node vma = .ok carved) :
    carved.Sound AnySummary shape chain [] := by
  rw [carve, if_pos (show size = (vma.region node).size from exactly)] at run
  cases run
  exact (whole_granted sound.any member free busy exactly (fun _ _ _ _ => trivial)).1

theorem carve_split_sound {first : Nat} (sound : vma.Sound goal shape (first :: chain) [])
    (plenty : minimumAvailableNodes ≤ chain.length) (member : node ∈ (shape tree).inorder)
    (free : (vma.region node).type = .free) (whole : size % 4096 = 0)
    (inOrder : vma.SplitsInOrder (shape tree) node size)
    (run : carve allocVmDsNode tree size type flags node vma = .ok carved) :
    ∃ result, carved.Sound AnySummary (Function.update shape tree result) chain [] := by
  obtain ⟨positive, smaller, ordered⟩ := inOrder
  obtain ⟨_, taken, regions⟩ := takeNode_sound sound.any
  have nodeSame := regions tree node member
  have startSame : (vma.taken first).startOf node = vma.startOf node :=
    congrArg VmRegion.startAddr nodeSame
  have sizeSame : (vma.taken first).sizeOf node = vma.sizeOf node :=
    congrArg VmRegion.size nodeSame
  obtain ⟨front, back, order⟩ := append_of_mem member
  have takenOrdered : (vma.taken first).OrdersCorrectly (shape tree)
      ((vma.taken first).startOf node + size) := by
    rw [startSame]
    intro other inTree
    have otherStart : (vma.taken first).startOf other = vma.startOf other :=
      congrArg VmRegion.startAddr (regions tree other inTree)
    rw [otherStart, regions tree other inTree]
    exact ordered other inTree
  obtain ⟨nodes, result, inserted, final, _order, _halved⟩ := split_sound
    (fun _ _ _ => trivial) taken order (nodeSame ▸ free) positive whole (sizeSame ▸ smaller)
    takenOrdered type flags
  have room := sound.geometry.bounds member
  have limit := treeLimit_lt tree
  have keyIs : word ((vma.taken first).startOf node + size) =
      (vma.taken first).startOf node + size := by
    rw [startSame]
    exact word_of_lt (by omega)
  have different : ¬ size = (vma.region node).size := Nat.ne_of_lt smaller
  rw [← keyIs] at inserted
  cases run.symm.trans (carve_cut different (alloc_plenty sound plenty) inserted)
  exact ⟨result, final⟩

/-- A request out of a state in order leaves one that the next request can be followed in,
unless it disorders the regions and uses up the nodes to spare. -/
theorem Sound.carves_ready (sound : vma.Sound goal shape chain [])
    (stocked : minimumAvailableNodes ≤ chain.length) (calm : vma.inReplenishCycle = false)
    (member : node ∈ (shape tree).inorder) (free : (vma.region node).type = .free)
    (busy : type ≠ .free) (whole : size % 4096 = 0)
    (orderly : chain.length = minimumAvailableNodes + 1 → ¬ size = vma.sizeOf node →
      vma.SplitsInOrder (shape tree) node size)
    (run : carve allocVmDsNode tree size type flags node vma = .ok carved) :
    ∃ newShape newChain, Carves vma carved tree shape newShape newChain ∧
      carved.Ready newShape newChain := by
  have ready := sound.ready stocked calm
  have treeShort := fun owner => sound.geometry.length_le owner
  have short := sound.geometry.short tree
  by_cases low : ¬ size = vma.sizeOf node ∧ chain.length ≤ minimumAvailableNodes
  · obtain ⟨newShape, newChain, carves, plenty⟩ :=
      carves_grown sound stocked low.2 calm member low.1 run
    refine ⟨newShape, newChain, carves, carves.wired, carves.chainFew, ?_, carves.calm,
      Or.inl plenty⟩
    intro owner
    exact (carves.few owner).trans (Nat.add_le_add_right (treeShort owner) 2)
  · have plenty : ¬ size = vma.sizeOf node → minimumAvailableNodes < chain.length := by
      intro inexact
      exact Nat.lt_of_not_le (fun few => low ⟨inexact, few⟩)
    obtain ⟨newShape, newChain, carves, more⟩ := sound.wired.carves_plain ready.chainFew
      (by omega) calm member plenty run
    refine ⟨newShape, newChain, carves, carves.wired, carves.chainFew, ?_, carves.calm, ?_⟩
    · intro owner
      exact (carves.few owner).trans (Nat.add_le_add_right (treeShort owner) 2)
    · by_cases exactly : size = vma.sizeOf node
      · obtain ⟨geometry, same⟩ :=
          carves.in_order (carve_whole_sound sound member free busy exactly run)
        exact Or.inr ⟨geometry, same ▸ stocked⟩
      · by_cases spare : minimumAvailableNodes + 1 < chain.length
        · exact Or.inl (by omega)
        · have enough := plenty exactly
          have lone : chain.length = minimumAvailableNodes + 1 := by omega
          cases chain with
          | nil => cases lone
          | cons first rest =>
            rw [length_cons] at lone
            obtain ⟨result, final⟩ := carve_split_sound sound (by omega) member free whole
              (orderly (by rw [length_cons]; exact lone) exactly) run
            obtain ⟨geometry, same⟩ := carves.in_order final
            exact Or.inr ⟨geometry, by omega⟩

end Ready

/-! ### Searching without an order -/

section Request

variable {vma after : Vma} {shape : Shapes} {tree : KTree} {size flags start : Nat}
  {type : VmNodeType} {backing : Option VmaBacking}
  {allocNode : Vma → Except Fault (Nat × Vma)}

theorem KernelTrees.withTables (trees : vma.KernelTrees shape) (vmm : Vmm) :
    ({ vma with vmm := vmm } : Vma).KernelTrees shape where
  rooted := by
    intro tree
    cases tree with
    | heap => exact trees.rooted .heap
    | mmio => exact trees.rooted .mmio
  linked := trees.linked
  distinct := trees.distinct
  short := trees.short

theorem KernelTrees.worstFit (trees : vma.KernelTrees shape) (tree : KTree) :
    vma.worstFit tree = .ok ((vma.candidate (shape tree)).getD 0) := by
  unfold Vma.worstFit
  rw [trees.rooted]
  exact AvlStore.avlGetNode_search _ (trees.linked tree) (trees.short tree)

theorem KernelTrees.serves_none (trees : vma.KernelTrees shape) (busy : type ≠ .free)
    (none : vma.candidate (shape tree) = none) :
    vmaAllocateMemoryFromTreeWith allocNode tree size type flags backing vma = .ok (0, vma) := by
  unfold vmaAllocateMemoryFromTreeWith
  rw [if_neg busy, trees.worstFit, none]
  rfl

theorem KernelTrees.serves_some (trees : vma.KernelTrees shape) (busy : type ≠ .free) {node : Nat}
    (found : vma.candidate (shape tree) = some node)
    (run : vmaAllocateMemoryFromTreeWith allocNode tree size type flags backing vma =
      .ok (start, after)) :
    ∃ carved, carve allocNode tree size type flags node vma = .ok carved ∧
      back size type flags backing node carved = .ok after ∧ start = after.startOf node := by
  have nonzero := (trees.linked tree).ne_zero (candidate_free found).1
  unfold vmaAllocateMemoryFromTreeWith at run
  rw [if_neg busy, trees.worstFit, found, ok_bind, Option.getD_some, if_neg nonzero] at run
  obtain ⟨carved, carving, rest⟩ := bind_eq_ok run
  obtain ⟨backed, backing, returned⟩ := bind_eq_ok rest
  cases returned
  exact ⟨carved, carving, backing, rfl⟩

end Request

end Vma

end Fesos
