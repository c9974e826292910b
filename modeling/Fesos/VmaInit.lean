/-
`vma_init` ends in a steady state.

The first slab page is threaded before any tree exists; three of its nodes become
the two regions of the heap tree and the one region of the MMIO tree.
-/

import Fesos.VmaFree

set_option autoImplicit false

namespace Fesos

open BinaryTree Library Function
open List hiding nil

namespace Vma

section Build

variable {vma : Vma} {shape : Shapes} {chain loose : List Nat} {tree : KTree} {new : Nat}

/-- A loose node becomes the only node of an empty tree. -/
theorem Layout.plant (layout : vma.Layout shape chain (new :: loose)) (empty : shape tree = nil)
    {nodes : AvlStore VmRegion Nat} (same : Elsewhere [new] vma.nodes nodes) (nonzero : new ≠ 0)
    (parent : nodes.parent new = 0) (left : nodes.left new = 0) (right : nodes.right new = 0)
    (callback : nodes.update new = vmAvlUpdateAddress) :
    (vma.setTree tree new nodes).Layout (Function.update shape tree (node new nil nil)) chain
      loose := by
  have changed := layout.setLoose same
  have grown : (node new nil nil).inorder.Perm (new :: (shape tree).inorder) := by
    rw [empty]
    exact List.Perm.refl _
  have planted := changed.setTree (AvlStore.SameOutside.refl [] nodes)
    (show nodes.Linked 0 (node new nil nil) from
      ⟨nonzero, parent, left, right, trivial, trivial⟩)
    (fun other member => mem_singleton.mp member ▸ callback) (fun _ _ _ _ => not_mem_nil)
    (nodesOf_grow_perm grown)
  cases tree <;> exact planted

end Build

theorem pageNodes_cons (page count : Nat) :
    pageNodes page (count + 1) = page :: pageNodes (page + 88) count := by
  unfold pageNodes
  rw [range_succ_eq_map, map_cons, map_map]
  congr 1
  refine map_congr_left (fun index _ => ?_)
  simp only [Function.comp_apply]
  omega

/-- The threaded page before any tree exists. -/
theorem slabStart_layout (vmm : Vmm) :
    (slabStart vmm).Layout (fun _ => nil) (pageNodes kernelHeapStart nodesPerPage) [] := by
  obtain ⟨last, per⟩ : ∃ last, nodesPerPage = last + 1 := ⟨45, rfl⟩
  have lastIs : nodesPerPage - 1 = last := by omega
  have page : kernelHeapStart ≠ 0 := by decide
  have unused : kernelHeapStart + 88 * last ∉ pageNodes kernelHeapStart last := by
    intro inside
    obtain ⟨index, small, is⟩ := mem_pageNodes.mp inside
    omega
  refine
    { linked := fun _ => trivial
      rooted := fun tree => by cases tree <;> rfl
      callback := nofun
      chained := ?_
      counted := ?_
      separate := ?_
      located := ?_ }
  · unfold startOf region slabStart
    rw [per, pageNodes_succ, Nat.add_sub_cancel]
    refine chain_pageNodes page (fun index small => threadNodes_start _ _ _ small)
      ⟨rfl, by omega, ?_⟩
    change ((threadNodes kernelHeapStart last emptyStore).data
      (kernelHeapStart + 88 * last)).startAddr = 0
    rw [(threadNodes_elsewhere kernelHeapStart last emptyStore).data _ unused]
    rfl
  · rw [pageNodes, length_map, length_range]
    rfl
  · simpa [nodesOf] using pageNodes_nodup kernelHeapStart nodesPerPage
  · intro other member
    have inPage : other ∈ pageNodes kernelHeapStart nodesPerPage := by simpa [nodesOf] using member
    obtain ⟨index, small, is⟩ := mem_pageNodes.mp inPage
    exact ⟨kernelHeapStart, mem_cons_self, index, small, is⟩

def plantHeap (vma : Vma) (new : Nat) : Vma :=
  let heapNodes := initVmDsNode vma.nodes new kernelHeapStart 4096 .regular vmAvlUpdateAddress
  { vma with
    nodes := heapNodes.setData new { heapNodes.data new with flags := slabFlags }
    heapRoot := new }

/-- The rest of the heap, before it is inserted. -/
def prepareRest (vma : Vma) (new : Nat) : Vma :=
  { vma with
    nodes := initVmDsNode vma.nodes new (kernelHeapStart + 4096) (kernelHeapSize - 4096) .free
      vmAvlUpdateAddress }

def plantMmio (vma : Vma) (new : Nat) : Vma :=
  vma.setTree .mmio new
    (initVmDsNode vma.nodes new kernelMmioStart kernelMmioSize .free vmAvlUpdateAddress)

/-- `vma_init` up to the MMIO tree. -/
def buildHeap (vmm : Vmm) : Except Fault Vma := do
  let heapNode ← allocVmDsNode (slabStart vmm)
  let remaining ← allocVmDsNode (heapNode.2.plantHeap heapNode.1)
  let inserted ← AvlStore.avlInsert vmCallbacks (vmAvlCompAddr (kernelHeapStart + 4096)) treeFuel
    remaining.2.heapRoot remaining.1 (remaining.2.prepareRest remaining.1).nodes
  pure (remaining.2.setTree .heap inserted.1 inserted.2)

theorem vmaInit_eq (vmm : Vmm) : vmaInit vmm = (do
    let built ← buildHeap vmm
    let mmioNode ← allocVmDsNode built
    pure (mmioNode.2.plantMmio mmioNode.1)) := by
  unfold buildHeap
  simp only [bind_assoc, pure_bind]
  rfl

section Plant

variable {vma : Vma} {shape : Shapes} {chain loose : List Nat} {new : Nat}

theorem plantHeap_layout (layout : vma.Layout shape chain (new :: loose))
    (empty : shape .heap = nil) (nonzero : new ≠ 0) :
    (vma.plantHeap new).Layout (Function.update shape .heap (node new nil nil)) chain loose := by
  have fields := initVmDsNode_fields vma.nodes nonzero kernelHeapStart 4096 .regular
    vmAvlUpdateAddress
  exact layout.plant empty ((initVmDsNode_elsewhere _ _ _ _ _ _).trans (setData_elsewhere _ _ _))
    nonzero fields.2.2.1 fields.1 fields.2.1 fields.2.2.2.2.1

theorem plantHeap_region (vma : Vma) (nonzero : new ≠ 0) :
    (vma.plantHeap new).startOf new = kernelHeapStart ∧ (vma.plantHeap new).sizeOf new = 4096 ∧
      ((vma.plantHeap new).region new).type = .regular := by
  have fields := initVmDsNode_fields vma.nodes nonzero kernelHeapStart 4096 .regular
    vmAvlUpdateAddress
  unfold startOf sizeOf region plantHeap AvlStore.setData
  simp only [update_self, fields.2.2.2.2.2.2, and_self]

theorem prepareRest_region (vma : Vma) (nonzero : new ≠ 0) :
    (vma.prepareRest new).startOf new = kernelHeapStart + 4096 ∧
      (vma.prepareRest new).sizeOf new = kernelHeapSize - 4096 ∧
      ((vma.prepareRest new).region new).type = .free := by
  have fields := initVmDsNode_fields vma.nodes nonzero (kernelHeapStart + 4096)
    (kernelHeapSize - 4096) .free vmAvlUpdateAddress
  unfold startOf sizeOf region prepareRest
  simp only [fields.2.2.2.2.2.2, and_self]

theorem plantMmio_region (vma : Vma) (nonzero : new ≠ 0) :
    (vma.plantMmio new).startOf new = kernelMmioStart ∧
      (vma.plantMmio new).sizeOf new = kernelMmioSize ∧
      ((vma.plantMmio new).region new).type = .free := by
  have fields := initVmDsNode_fields vma.nodes nonzero kernelMmioStart kernelMmioSize .free
    vmAvlUpdateAddress
  unfold startOf sizeOf region plantMmio
  simp only [setTree_nodes, fields.2.2.2.2.2.2, and_self]

theorem prepareRest_fresh {exempt : Nat → Prop} (vma : Vma) (nonzero : new ≠ 0) :
    (vma.prepareRest new).nodes.FreshLeaf (SummaryExact exempt) new := by
  have fields := initVmDsNode_fields vma.nodes nonzero (kernelHeapStart + 4096)
    (kernelHeapSize - 4096) .free vmAvlUpdateAddress
  refine ⟨nonzero, fields.1, fields.2.1, fields.2.2.2.1, Or.inr ?_⟩
  have data : (vma.prepareRest new).nodes.data new = _ := fields.2.2.2.2.2.2
  have summary : (vma.prepareRest new).nodes.summary new = _ := fields.2.2.2.2.2.1
  rw [data, summary]
  simp [vmAvlUpdate]

end Plant

theorem slots : ∃ rest, rest.length = 43 ∧
    pageNodes kernelHeapStart nodesPerPage = kernelHeapStart :: (kernelHeapStart + 88) ::
      (kernelHeapStart + 88 + 88) :: rest := by
  refine ⟨pageNodes (kernelHeapStart + 88 + 88 + 88) 43, ?_, ?_⟩
  · rw [pageNodes, length_map, length_range]
  · rw [show nodesPerPage = 43 + 1 + 1 + 1 from rfl, pageNodes_cons, pageNodes_cons,
      pageNodes_cons]

/-- The state after the heap tree got its two regions. -/
theorem heap_built (vmm : Vmm) {first second third : Nat} {rest : List Nat}
    (slotted : pageNodes kernelHeapStart nodesPerPage = first :: second :: third :: rest)
    (many : rest.length = 43) (firstNonzero : first ≠ 0) (secondNonzero : second ≠ 0)
    (different : first ≠ second) :
    ∃ inserted built, buildHeap vmm = .ok built ∧
      built.Layout (Function.update (fun _ => nil) .heap inserted) (third :: rest) [] ∧
      inserted.inorder = [first, second] ∧
      built.nodes.Settled (SummaryExact (fun _ => False)) inserted ∧
      (built.startOf first = kernelHeapStart ∧ built.sizeOf first = 4096 ∧
        (built.region first).type = .regular) ∧
      (built.startOf second = kernelHeapStart + 4096 ∧
        built.sizeOf second = kernelHeapSize - 4096 ∧ (built.region second).type = .free) ∧
      built.slabPages = [kernelHeapStart] ∧ built.inReplenishCycle = false := by
  have start := slabStart_layout vmm
  rw [slotted] at start
  have minimum : minimumAvailableNodes = 5 := rfl
  have firstTaking := allocVmDsNode_takes start (by simp only [length_cons]; omega)
    (by simp only [length_cons]; omega)
  obtain ⟨_, firstTaken⟩ := takeNode_layout start (by simp only [length_cons]; omega)
  have planted := plantHeap_layout firstTaken rfl firstNonzero
  have secondTaking := allocVmDsNode_takes planted (by simp only [length_cons]; omega)
    (by simp only [length_cons]; omega)
  obtain ⟨_, secondTaken⟩ := takeNode_layout planted (by simp only [length_cons]; omega)
  generalize stateIs : (((slabStart vmm).taken first).plantHeap first).taken second = state at *
  have prepared : (state.prepareRest second).Layout
      (Function.update (fun _ => nil) .heap (node first nil nil)) (third :: rest) [second] :=
    secondTaken.setLoose (initVmDsNode_elsewhere _ second (kernelHeapStart + 4096)
      (kernelHeapSize - 4096) .free vmAvlUpdateAddress)
  have notSecond : first ∉ [second] := by simpa using different
  have firstRegion : (state.prepareRest second).region first =
      (((slabStart vmm).taken first).plantHeap first).region first := by
    have init := (initVmDsNode_elsewhere state.nodes second (kernelHeapStart + 4096)
      (kernelHeapSize - 4096) .free vmAvlUpdateAddress).data first notSecond
    have taking := (clearNode_elsewhere (((slabStart vmm).taken first).plantHeap first).nodes
      second).data first notSecond
    refine init.trans ?_
    rw [← stateIs]
    exact taking
  have firstFacts := plantHeap_region ((slabStart vmm).taken first) firstNonzero
  have secondFacts := prepareRest_region state secondNonzero
  have fields := initVmDsNode_fields state.nodes secondNonzero (kernelHeapStart + 4096)
    (kernelHeapSize - 4096) .free vmAvlUpdateAddress
  have here : Function.update (fun _ => nil) KTree.heap (node first nil nil) KTree.heap =
      node first nil nil := update_self _ _ _
  have off : (state.prepareRest second).nodes.SettledOff (SummaryExact (fun _ => False))
      ((state.prepareRest second).goesLeft (kernelHeapStart + 4096))
      (Function.update (fun _ => nil) KTree.heap (node first nil nil) .heap) := by
    rw [here]
    simp only [AvlStore.SettledOff]
    split <;> exact ⟨trivial, trivial⟩
  obtain ⟨nodes, run, newLayout, settled, same⟩ := insert_layout (summaryExact_update _) prepared
    (by rw [here]; simp) (prepareRest_fresh state secondNonzero) fields.2.2.2.2.1
    (by rw [here]; simp [treeFuel]) off
  rw [here] at run newLayout settled
  have right : (state.prepareRest second).goesLeft (kernelHeapStart + 4096) first = false := by
    have start := firstFacts.1
    unfold startOf at start
    unfold goesLeft vmAvlCompAddr
    rw [firstRegion, start]
    decide
  have newOrder : (insertTree ((state.prepareRest second).goesLeft (kernelHeapStart + 4096)) second
      (node first nil nil)).inorder = [first] ++ second :: [] :=
    insertTree_inorder _ second (node first nil nil) rfl
      (fun pointer member => by rw [mem_singleton.mp member]; exact right)
      (fun _ member => absurd member not_mem_nil)
  generalize insertTree ((state.prepareRest second).goesLeft (kernelHeapStart + 4096)) second
    (node first nil nil) = inserted at *
  have regions : ∀ other, (state.setTree .heap (rootOf inserted) nodes).region other =
      (state.prepareRest second).region other := by
    intro other
    rw [region, setTree_nodes, same.data]
    rfl
  refine ⟨inserted, state.setTree .heap (rootOf inserted) nodes, ?_, ?_, newOrder, settled, ?_, ?_,
    ?_, ?_⟩
  · rw [buildHeap, firstTaking, ok_bind, secondTaking, ok_bind]
    change (AvlStore.avlInsert vmCallbacks (vmAvlCompAddr (kernelHeapStart + 4096)) treeFuel
      ((state.prepareRest second).root .heap) second (state.prepareRest second).nodes >>=
        fun inserted => pure (state.setTree .heap inserted.1 inserted.2)) = _
    rw [run, ok_bind]
    rfl
  · rw [update_idem] at newLayout
    exact newLayout
  · unfold startOf sizeOf at firstFacts ⊢
    rw [regions, firstRegion]
    exact firstFacts
  · unfold startOf sizeOf at secondFacts ⊢
    rw [regions]
    exact secondFacts
  · rw [setTree_slabPages, ← stateIs]
    rfl
  · rw [setTree_inReplenishCycle, ← stateIs]
    rfl

theorem vmaInit_steady (vmm : Vmm) : ∃ vma shape chain, vmaInit vmm = .ok vma ∧
    vma.Steady (fun _ => False) shape chain [] := by
  obtain ⟨rest, many, slotted⟩ := slots
  have firstNonzero : kernelHeapStart ≠ 0 := by decide
  generalize secondIs : kernelHeapStart + 88 = second at slotted
  generalize thirdIs : second + 88 = third at slotted
  obtain ⟨inserted, built, run, layout, order, settled, firstFacts, secondFacts, slabs, calm⟩ :=
    heap_built vmm slotted many firstNonzero (by omega) (by omega)
  have minimum : minimumAvailableNodes = 5 := rfl
  have thirdTaking := allocVmDsNode_takes layout (by simp only [length_cons]; omega) (by omega)
  obtain ⟨_, taken⟩ := takeNode_layout layout (by simp only [length_cons]; omega)
  have thirdNonzero : third ≠ 0 := by omega
  generalize stateIs : built.taken third = state at *
  have fields := initVmDsNode_fields state.nodes thirdNonzero kernelMmioStart kernelMmioSize .free
    vmAvlUpdateAddress
  have init := initVmDsNode_elsewhere state.nodes third kernelMmioStart kernelMmioSize .free
    vmAvlUpdateAddress
  have same : Elsewhere [third] built.nodes (state.plantMmio third).nodes := by
    rw [plantMmio, setTree_nodes]
    refine Elsewhere.trans ?_ init
    rw [← stateIs]
    exact clearNode_elsewhere _ _
  have final : (state.plantMmio third).Layout (Function.update (Function.update (fun _ => nil) .heap
      inserted) .mmio (node third nil nil)) rest [] :=
    taken.plant rfl init thirdNonzero fields.2.2.1 fields.1 fields.2.1 fields.2.2.2.2.1
  have apart : ∀ other ∈ inserted.inorder, other ∉ [third] := by
    intro other member inside
    rw [order] at member
    rw [mem_singleton.mp inside] at member
    simp at member
    omega
  have firstSame : (state.plantMmio third).region kernelHeapStart = built.region kernelHeapStart :=
    same.data _ (apart _ (by rw [order]; simp))
  have secondSame : (state.plantMmio third).region second = built.region second :=
    same.data _ (apart _ (by rw [order]; simp))
  have thirdFacts := plantMmio_region state thirdNonzero
  generalize shapeIs : Function.update (Function.update (fun _ => nil) .heap inserted) KTree.mmio
    (node third nil nil) = shape at final
  have heapIs : shape .heap = inserted := by
    rw [← shapeIs]
    rfl
  have mmioIs : shape .mmio = node third nil nil := by
    rw [← shapeIs]
    rfl
  have slabsIs : (state.plantMmio third).slabPages = [kernelHeapStart] := by
    rw [plantMmio, setTree_slabPages, ← stateIs]
    exact slabs
  generalize plantedIs : state.plantMmio third = planted at *
  have starts : planted.startOf kernelHeapStart = kernelHeapStart ∧
      planted.startOf second = kernelHeapStart + 4096 := by
    unfold startOf at firstFacts secondFacts ⊢
    rw [firstSame, secondSame]
    exact ⟨firstFacts.1, secondFacts.1⟩
  have sizes : planted.sizeOf kernelHeapStart = 4096 ∧
      planted.sizeOf second = kernelHeapSize - 4096 := by
    unfold sizeOf at firstFacts secondFacts ⊢
    rw [firstSame, secondSame]
    exact ⟨firstFacts.2.1, secondFacts.2.1⟩
  have types : (planted.region kernelHeapStart).type = .regular ∧
      (planted.region second).type = .free := by
    rw [firstSame, secondSame]
    exact ⟨firstFacts.2.2, secondFacts.2.2⟩
  have slabUsed : planted.InUse shape .heap kernelHeapStart 4096 := by
    refine ⟨kernelHeapStart, by rw [heapIs, order]; simp, starts.1, sizes.1, ?_⟩
    rw [types.1]
    decide
  have geometry : planted.Geometry shape := by
    refine ⟨?_, ?_, ?_⟩
    · rintro (_ | _)
      · rw [heapIs, order]
        refine ⟨starts.1, by rw [sizes.1]; decide, ?_, ?_, ?_⟩
        · rw [sizes.1, starts.2]
          rfl
        · rw [sizes.2]
          decide
        · rw [sizes.1, sizes.2]
          exact (by decide : treeStart .heap + 4096 + (kernelHeapSize - 4096) = treeLimit .heap)
      · rw [mmioIs]
        refine ⟨thirdFacts.1, by rw [thirdFacts.2.1]; decide, ?_⟩
        rw [thirdFacts.2.1]
        exact (by decide : treeStart .mmio + kernelMmioSize = treeLimit .mmio)
    · rintro (_ | _) other member
      · rw [heapIs, order] at member
        simp only [mem_cons, not_mem_nil, or_false] at member
        rcases member with isFirst | isSecond
        · rw [isFirst, sizes.1]
        · rw [isSecond, sizes.2]
          decide
      · rw [mmioIs] at member
        rw [mem_singleton.mp member, thirdFacts.2.1]
        decide
    · intro page member
      rw [slabsIs] at member
      rw [mem_singleton.mp member]
      exact slabUsed
  have settledAll : ∀ tree, planted.nodes.Settled (SummaryExact (fun _ => False)) (shape tree) := by
    rintro (_ | _)
    · rw [heapIs]
      exact same.settled apart settled
    · rw [mmioIs]
      have nodes : planted.nodes = initVmDsNode state.nodes third kernelMmioStart kernelMmioSize
          .free vmAvlUpdateAddress := by rw [← plantedIs, plantMmio, setTree_nodes]
      rw [nodes]
      refine ⟨fields.2.2.2.1, Or.inr ?_, trivial, trivial⟩
      rw [fields.2.2.2.2.2.1, fields.2.2.2.2.2.2]
      simp [vmAvlUpdate, AvlStore.top]
  refine ⟨planted, shape, rest, ?_, ⟨final, geometry, settledAll⟩, ⟨?_, ?_⟩, by omega, ?_⟩
  · rw [vmaInit_eq, run, ok_bind, thirdTaking, ok_bind, ← plantedIs]
    rfl
  · unfold slabRanges
    rw [slabsIs]
    simp
  · intro owner first amount
    unfold slabRanges
    rw [slabsIs]
    simp only [map_cons, map_nil, nil_append, mem_singleton,
      OwnedRange.mk.injEq]
    constructor
    · rintro ⟨other, member, startIs, sizeIs, used⟩
      cases owner with
      | heap =>
        rw [heapIs, order] at member
        simp only [mem_cons, not_mem_nil, or_false] at member
        rcases member with isFirst | isSecond
        · rw [isFirst] at startIs sizeIs
          exact ⟨rfl, startIs.symm.trans starts.1, sizeIs.symm.trans sizes.1⟩
        · rw [isSecond] at used
          exact absurd types.2 used
      | mmio =>
        rw [mmioIs] at member
        rw [mem_singleton.mp member] at used
        exact absurd thirdFacts.2.2 used
    · rintro ⟨ownerIs, firstIs, amountIs⟩
      rw [ownerIs, firstIs, amountIs]
      exact slabUsed
  · rw [← plantedIs, plantMmio, setTree_inReplenishCycle, ← stateIs]
    exact calm

end Vma

end Fesos
