/-
Freeing an address at which no region in use starts.

`vma_free_memory_from_tree` goes on after the search has failed, and it takes
whatever region the search ends at.  A call is without effect exactly when the
address lies outside both ranges or the search ends at a FREE region that has
nothing to coalesce with.
-/

import Fesos.VmaRuns

set_option autoImplicit false

namespace Fesos

open BinaryTree List Function

namespace Vma

/-! ### Coalescing -/

section Count

variable {vma after : Vma} {tree : KTree} {node successor predecessor : Nat}

theorem removeFromTree_count (removed : removeFromTree tree node vma = .ok after) :
    after.freeNodeCount = vma.freeNodeCount := by
  unfold removeFromTree at removed
  obtain ⟨result, _, rest⟩ := bind_eq_ok removed
  cases rest
  cases tree <;> rfl

theorem coalesce_lone (behind : vma.isFree successor = false)
    (ahead : vma.isFree predecessor = false) :
    coalesce tree node successor predecessor vma =
      .ok (vma.setRegion node { vma.region node with type := .free }) := by
  unfold coalesce
  rw [behind, ahead]
  rfl

theorem coalesce_behind (behind : vma.isFree successor = true)
    (ahead : vma.isFree predecessor = false) :
    coalesce tree node successor predecessor vma =
      removeFromTree tree successor (vma.setRegion node { vma.region node with
        size := word ((vma.region successor).size + (vma.region node).size), type := .free }) >>=
      fun removed => .ok (freeVmDsNode removed successor) := by
  unfold coalesce
  rw [behind, ahead]
  rfl

theorem removeFromTree_region (removed : removeFromTree tree node vma = .ok after) (other : Nat) :
    after.region other = vma.region other := by
  unfold removeFromTree at removed
  obtain ⟨⟨root, nodes⟩, removal, rest⟩ := bind_eq_ok removed
  cases rest
  unfold region
  rw [setTree_nodes]
  exact congrFun (AvlStore.avlRemove_keeps_data removal) other

theorem freeVmDsNode_region (vma : Vma) (node other : Nat) :
    (vma.freeVmDsNode node).region other =
      if other = node then { vma.region node with startAddr := vma.freeList }
      else vma.region other := by
  by_cases here : other = node
  · rw [if_pos here, here]
    exact update_self _ _ _
  · rw [if_neg here]
    exact update_of_ne here _ _

/-- The node that stays and the nodes that go, by the neighbours the code reads. -/
def joined (vma : Vma) (node successor predecessor : Nat) : Nat × List Nat :=
  if vma.isFree predecessor then
    (predecessor, if vma.isFree successor then [successor, node] else [node])
  else (node, if vma.isFree successor then [successor] else [])

theorem removeAll_cons {next : Vma} {gone : List Nat}
    (first : removeFromTree tree node vma = .ok next)
    (rest : gone.foldlM (fun vma pointer => removeFromTree tree pointer vma) next = .ok after) :
    (node :: gone).foldlM (fun vma pointer => removeFromTree tree pointer vma) vma =
      .ok after := by
  rw [foldlM_cons, first]
  exact rest

theorem coalesce_joins (run : coalesce tree node successor predecessor vma = .ok after) :
    ∃ region removed, (vma.joined node successor predecessor).2.foldlM
        (fun vma pointer => removeFromTree tree pointer vma)
        (vma.setRegion (vma.joined node successor predecessor).1 region) = .ok removed ∧
      (vma.joined node successor predecessor).2.reverse.foldl freeVmDsNode removed = after := by
  unfold coalesce at run
  unfold joined
  cases behind : vma.isFree successor <;> cases ahead : vma.isFree predecessor <;>
    simp only [behind, ahead, Bool.false_eq_true, and_true, and_false, if_true, if_false] at run ⊢
  · exact ⟨_, _, rfl, Except.ok.inj run⟩
  · obtain ⟨removed, removal, final⟩ := bind_eq_ok run
    exact ⟨_, removed, removeAll_cons removal rfl, Except.ok.inj final⟩
  · obtain ⟨removed, removal, final⟩ := bind_eq_ok run
    exact ⟨_, removed, removeAll_cons removal rfl, Except.ok.inj final⟩
  · obtain ⟨first, firstRun, rest⟩ := bind_eq_ok run
    obtain ⟨second, secondRun, final⟩ := bind_eq_ok rest
    exact ⟨_, second, removeAll_cons firstRun (removeAll_cons secondRun rfl), Except.ok.inj final⟩

theorem removeAll_keeps {gone : List Nat}
    (removed : gone.foldlM (fun vma pointer => removeFromTree tree pointer vma) vma = .ok after) :
    after.region = vma.region ∧ after.freeNodeCount = vma.freeNodeCount := by
  induction gone generalizing vma with
  | nil =>
    cases removed
    exact ⟨rfl, rfl⟩
  | cons pointer gone ih =>
    rw [foldlM_cons] at removed
    obtain ⟨next, first, rest⟩ := bind_eq_ok removed
    obtain ⟨regions, count⟩ := ih rest
    exact ⟨regions.trans (funext (removeFromTree_region first)),
      count.trans (removeFromTree_count first)⟩

/-- Nodes that go keep their types. -/
theorem freeAll_keeps (gone : List Nat) (vma : Vma) (other : Nat) :
    ((gone.foldl freeVmDsNode vma).region other).type = (vma.region other).type ∧
      (other ∉ gone → (gone.foldl freeVmDsNode vma).region other = vma.region other) := by
  induction gone generalizing vma with
  | nil => exact ⟨rfl, fun _ => rfl⟩
  | cons node gone ih =>
    obtain ⟨types, regions⟩ := ih (vma.freeVmDsNode node)
    rw [freeVmDsNode_region] at types regions
    constructor
    · refine types.trans ?_
      split
      · rename_i here
        rw [here]
      · rfl
    · intro outside
      rw [foldl_cons, regions (fun inside => outside (mem_cons_of_mem _ inside)),
        if_neg (ne_of_not_mem_cons outside)]

theorem freeAll_count (gone : List Nat) (vma : Vma) :
    (gone.foldl freeVmDsNode vma).freeNodeCount % 2 ^ 64 =
      (vma.freeNodeCount + gone.length) % 2 ^ 64 := by
  induction gone generalizing vma with
  | nil => rfl
  | cons node gone ih =>
    rw [foldl_cons, ih, length_cons]
    change (word (vma.freeNodeCount + 1) + gone.length) % 2 ^ 64 = _
    unfold word
    omega

/-- Coalescing puts a node on the free list unless neither neighbour is free. -/
theorem coalesce_count (run : coalesce tree node successor predecessor vma = .ok after)
    (same : after.freeNodeCount = vma.freeNodeCount) :
    vma.isFree successor = false ∧ vma.isFree predecessor = false := by
  obtain ⟨region, removed, removal, rfl⟩ := coalesce_joins run
  have counted := freeAll_count (vma.joined node successor predecessor).2.reverse removed
  rw [same, (removeAll_keeps removal).2, length_reverse] at counted
  change vma.freeNodeCount % 2 ^ 64 = (vma.freeNodeCount + _) % 2 ^ 64 at counted
  unfold joined at counted
  cases behind : vma.isFree successor <;> cases ahead : vma.isFree predecessor <;>
    simp only [behind, ahead, Bool.false_eq_true, if_true, if_false, length_cons, length_nil]
      at counted
  · exact ⟨rfl, rfl⟩
  all_goals omega

/-- Coalescing leaves all regions but the freed one and its FREE neighbours alone. -/
theorem coalesce_elsewhere (run : coalesce tree node successor predecessor vma = .ok after)
    {other : Nat} (notNode : other ≠ node)
    (notNext : vma.isFree successor = true → other ≠ successor)
    (notPrevious : vma.isFree predecessor = true → other ≠ predecessor) :
    after.region other = vma.region other := by
  obtain ⟨region, removed, removal, rfl⟩ := coalesce_joins run
  have outside : other ∉ (vma.joined node successor predecessor).2 ∧
      other ≠ (vma.joined node successor predecessor).1 := by
    unfold joined
    grind
  rw [(freeAll_keeps _ _ other).2 (fun inside => outside.1 (mem_reverse.mp inside)),
    (removeAll_keeps removal).1, setRegion_region, if_neg outside.2]

theorem coalesce_merged (run : coalesce tree node successor predecessor vma = .ok after)
    (ahead : vma.isFree predecessor = true) (apart : node ≠ predecessor) :
    (after.region node).type = (vma.region node).type := by
  obtain ⟨region, removed, removal, rfl⟩ := coalesce_joins run
  have keeper : (vma.joined node successor predecessor).1 = predecessor := by
    unfold joined
    rw [if_pos ahead]
  rw [(freeAll_keeps _ _ node).1, (removeAll_keeps removal).1, setRegion_region, keeper,
    if_neg apart]

theorem setRegion_self (vma : Vma) (node : Nat) : vma.setRegion node (vma.region node) = vma := by
  have same : vma.nodes.setData node (vma.nodes.data node) = vma.nodes := by
    unfold AvlStore.setData
    rw [update_eq_self]
  unfold setRegion region
  rw [same]

end Count

/-! ### The call -/

def InRange (startAddr : Nat) : Prop :=
  kernelHeapStart ≤ startAddr ∧ startAddr < kernelHeapLimit ∨
    kernelMmioStart ≤ startAddr ∧ startAddr < kernelMmioLimit

instance (startAddr : Nat) : Decidable (InRange startAddr) :=
  inferInstanceAs (Decidable (_ ∧ _ ∨ _ ∧ _))

def LoneFree (vma : Vma) (shape : BinaryTree Nat) (node : Nat) : Prop :=
  (vma.region node).type = .free ∧ vma.freePlan shape node = (node, [])

instance (vma : Vma) (shape : BinaryTree Nat) (node : Nat) : Decidable (vma.LoneFree shape node) :=
  inferInstanceAs (Decidable (_ ∧ _))

/-- The address lies outside both ranges, or the search for it ends at a FREE region that
has nothing to coalesce with. -/
def Harmless (vma : Vma) (shape : Shapes) (startAddr : Nat) : Prop :=
  ¬ InRange startAddr ∨ ∃ node ∈ (shape (owningTree startAddr)).inorder,
    vma.LeadsTo (shape (owningTree startAddr)) startAddr node ∧
      vma.LoneFree (shape (owningTree startAddr)) node

instance (vma : Vma) (shape : Shapes) (startAddr : Nat) :
    Decidable (vma.Harmless shape startAddr) :=
  inferInstanceAs (Decidable (_ ∨ ∃ node ∈ (shape (owningTree startAddr)).inorder, _))

section Call

variable {vma : Vma} {shape : Shapes} {tree : KTree} {startAddr node : Nat}
  {front back : List Nat}

theorem vmaFreeMemoryFromKtree_eq (inRange : InRange startAddr) :
    vmaFreeMemoryFromKtree startAddr vma =
      vmaFreeMemoryFromTree (owningTree startAddr) startAddr vma := by
  have apart : kernelMmioLimit ≤ kernelHeapStart := by decide
  unfold vmaFreeMemoryFromKtree owningTree
  rcases inRange with inHeap | inMmio
  · rw [if_pos inHeap, if_pos inHeap.1]
  · have below : ¬ kernelHeapStart ≤ startAddr := by omega
    rw [if_neg (fun inHeap => below inHeap.1), if_pos inMmio, if_neg below]

theorem vmaFreeMemoryFromKtree_outside (outside : ¬ InRange startAddr) :
    vmaFreeMemoryFromKtree startAddr vma = .ok vma := by
  unfold InRange at outside
  rw [not_or] at outside
  unfold vmaFreeMemoryFromKtree
  rw [if_neg outside.1, if_neg outside.2]

section

variable (trees : vma.KernelTrees shape)

include trees

/-- With the neighbours as the code reads them. -/
theorem KernelTrees.freePlan_lone_iff
    (order : (shape tree).inorder = front ++ node :: back) :
    vma.freePlan (shape tree) node = (node, []) ↔
      vma.isFree (back.head?.getD 0) = false ∧ vma.isFree (front.getLast?.getD 0) = false := by
  have distinct := trees.distinct tree
  have nonzero : ∀ other ∈ (shape tree).inorder, other ≠ 0 :=
    fun other => (trees.linked tree).ne_zero
  rw [order] at distinct nonzero
  have behindFree : vma.isFree (back.head?.getD 0) = _ := isFree_getD (fun other head =>
    nonzero other (mem_append_right _ (mem_cons_of_mem _ (mem_of_mem_head? head))))
  have beforeFree : vma.isFree (front.getLast?.getD 0) = _ := isFree_getD (fun other last =>
    nonzero other (mem_append_left _ (mem_of_mem_getLast? last)))
  rw [freePlan, order, beside_eq distinct, behindFree, beforeFree]
  unfold coalescing
  cases front.getLast?.filter (fun before => decide ((vma.region before).type = .free)) <;>
    cases back.head?.filter (fun behind => decide ((vma.region behind).type = .free)) <;> simp

/-- The successor is the only neighbour to coalesce with. -/
theorem KernelTrees.freePlan_behind_iff
    (order : (shape tree).inorder = front ++ node :: back) {behind : Nat} :
    vma.freePlan (shape tree) node = (node, [behind]) ↔
      back.head? = some behind ∧ vma.isFree behind = true ∧
        vma.isFree (front.getLast?.getD 0) = false := by
  have distinct := trees.distinct tree
  have nonzero : ∀ other ∈ (shape tree).inorder, other ≠ 0 :=
    fun other => (trees.linked tree).ne_zero
  rw [order] at distinct nonzero
  have beforeFree : vma.isFree (front.getLast?.getD 0) = _ := isFree_getD (fun other last =>
    nonzero other (mem_append_left _ (mem_of_mem_getLast? last)))
  have apart := (nodup_cons.mp (nodup_middle.mp distinct)).1
  rw [freePlan, order, beside_eq distinct, beforeFree]
  unfold coalescing
  cases ahead : front.getLast?.filter (fun before => decide ((vma.region before).type = .free)) with
  | some before =>
    have inFront := mem_of_mem_getLast? (Option.filter_eq_some_iff.mp ahead).1
    have different : before ≠ node := fun same =>
      apart (mem_append_left _ (same ▸ inFront))
    cases back.head?.filter (fun behind => decide ((vma.region behind).type = .free)) <;>
      simp [different]
  | none =>
    cases head : back.head? with
    | none => simp
    | some other =>
      have present : other ≠ 0 := nonzero other
        (mem_append_right _ (mem_cons_of_mem _ (mem_of_mem_head? head)))
      by_cases free : (vma.region other).type = .free
      · simp only [Option.filter_some, free, decide_true, if_true, Prod.mk.injEq, true_and,
          List.cons.injEq, and_true, Option.some.injEq, Option.isSome_none]
        constructor
        · intro same
          subst same
          exact ⟨rfl, by simp [isFree, present, free]⟩
        · exact fun met => met.1
      · simp only [Option.filter_some, free, decide_false, Bool.false_eq_true, if_false,
          Prod.mk.injEq, true_and, nil_eq, reduceCtorEq, false_iff, not_and]
        intro same isFree
        rw [Option.some.inj same] at free
        unfold Vma.isFree at isFree
        simp [free] at isFree

theorem KernelTrees.free_leads {after : Vma}
    (run : vmaFreeMemoryFromTree tree startAddr vma = .ok after) :
    ∃ node, vma.LeadsTo (shape tree) startAddr node := by
  by_contra missed
  rw [trees.free_missed (fun node _ leads => missed ⟨node, leads⟩)] at run
  cases run

/-- A free that finds a region leaves the regions of other trees alone, and the regions in
use. -/
theorem KernelTrees.free_keeps {after : Vma}
    (leads : vma.LeadsTo (shape tree) startAddr node)
    (run : vmaFreeMemoryFromTree tree startAddr vma = .ok after) {other : Nat}
    (different : other ≠ node)
    (kept : (vma.region other).type ≠ .free ∨ other ∉ (shape tree).inorder) :
    after.region other = vma.region other := by
  obtain ⟨front, back, order⟩ := append_of_mem leads.member
  rw [trees.free_found leads order] at run
  obtain ⟨vmm, _, coalesced⟩ := bind_eq_ok run
  have notFree : ∀ neighbour : Nat, vma.isFree neighbour = true →
      neighbour ∈ (shape tree).inorder → other ≠ neighbour := by
    intro neighbour free inTree same
    unfold isFree at free
    rw [Bool.and_eq_true_iff] at free
    rcases kept with busy | outside
    · exact busy (same ▸ of_decide_eq_true free.2)
    · exact outside (same ▸ inTree)
  apply coalesce_elsewhere coalesced different
  · intro free
    cases head : back.head? with
    | none =>
      rw [head] at free
      cases free
    | some behind =>
      apply notFree _ (by rw [head] at free; exact free)
      rw [order]
      exact mem_append_right _ (mem_cons_of_mem _ (mem_of_mem_head? head))
  · intro free
    cases last : front.getLast? with
    | none =>
      rw [last] at free
      cases free
    | some before =>
      apply notFree _ (by rw [last] at free; exact free)
      rw [order]
      exact mem_append_left _ (mem_of_mem_getLast? last)

theorem KernelTrees.heap_free_keeps {after : Vma}
    (inHeap : kernelHeapStart ≤ startAddr)
    (run : vmaFreeMemoryFromKtree startAddr vma = .ok after) {other : Nat}
    (outside : other ∉ (shape .heap).inorder) : after.region other = vma.region other := by
  by_cases inRange : InRange startAddr
  · have owner : owningTree startAddr = .heap := if_pos inHeap
    rw [vmaFreeMemoryFromKtree_eq inRange, owner] at run
    obtain ⟨hit, leads⟩ := trees.free_leads run
    exact trees.free_keeps leads run (fun same => outside (same ▸ leads.member)) (Or.inr outside)
  · rw [vmaFreeMemoryFromKtree_outside inRange] at run
    cases run
    rfl

/-- A free that finds a region changes nothing exactly when the region is FREE and has
nothing to coalesce with. -/
theorem KernelTrees.free_unchanged_iff
    (leads : vma.LeadsTo (shape tree) startAddr node) :
    vmaFreeMemoryFromTree tree startAddr vma = .ok vma ↔ vma.LoneFree (shape tree) node := by
  obtain ⟨front, back, order⟩ := append_of_mem leads.member
  rw [trees.free_found leads order, LoneFree, trees.freePlan_lone_iff order]
  constructor
  · intro run
    obtain ⟨vmm, _unbacked, coalesced⟩ := bind_eq_ok run
    have lone := coalesce_count coalesced rfl
    rw [coalesce_lone lone.1 lone.2] at coalesced
    have final := Except.ok.inj coalesced
    have freed : (vma.region node).type = .free := by
      rw [← final, setRegion_region, if_pos rfl]
    exact ⟨freed, lone⟩
  · intro lone
    have unbacked : unback (vma.region node) vma.vmm = .ok vma.vmm := by
      unfold unback
      rw [lone.1]
    rw [unbacked, ok_bind, coalesce_lone lone.2.1 lone.2.2, ← lone.1]
    exact congrArg Except.ok (vma.setRegion_self node)

end

end Call

/-- `vma_free_memory_from_ktree` is without fault and without effect exactly for these
addresses. -/
theorem vmaFreeMemoryFromKtree_unchanged_iff (vma : Vma) (shape : Shapes)
    (trees : vma.KernelTrees shape) (startAddr : Nat) :
    vmaFreeMemoryFromKtree startAddr vma = .ok vma ↔ vma.Harmless shape startAddr := by
  unfold Harmless
  by_cases inRange : InRange startAddr
  · rw [vmaFreeMemoryFromKtree_eq inRange]
    constructor
    · intro unchanged
      right
      by_cases found : ∃ node ∈ (shape (owningTree startAddr)).inorder,
          vma.LeadsTo (shape (owningTree startAddr)) startAddr node
      · obtain ⟨node, member, leads⟩ := found
        exact ⟨node, member, leads, (trees.free_unchanged_iff leads).mp unchanged⟩
      have missed := trees.free_missed
        (fun node member leads => found ⟨node, member, leads⟩)
      rw [unchanged] at missed
      cases missed
    · intro harmless
      obtain ⟨node, _, leads, lone⟩ := harmless.resolve_left (not_not.mpr inRange)
      exact (trees.free_unchanged_iff leads).mpr lone
  · exact iff_of_true (vmaFreeMemoryFromKtree_outside inRange) (Or.inl inRange)

theorem vmaInit_trees {vmm : Vmm} {initial : Vma} (built : vmaInit vmm = .ok initial) :
    initial.KernelTrees initial.shapes := by
  obtain ⟨vma, shape, chain, run, steady⟩ := vmaInit_steady vmm
  cases built.symm.trans run
  rw [steady.sound.shapes_eq]
  exact steady.sound.kernelTrees

theorem vmaFreeMemoryFromKtree_unchanged_iff_vmaInit :
    ∃ initial, vmaInit Vmm.emptyTables = .ok initial ∧
      vmaFreeMemoryFromKtree (kernelHeapStart + 4096) initial = .ok initial ∧
      vmaFreeMemoryFromKtree (kernelHeapStart + 8) initial ≠ .ok initial := by
  obtain ⟨initial, built, checked⟩ : ∃ initial, vmaInit Vmm.emptyTables = .ok initial ∧
      (initial.Harmless initial.shapes (kernelHeapStart + 4096) ∧
        ¬ initial.Harmless initial.shapes (kernelHeapStart + 8)) :=
    exists_of_checked _ (by decide +kernel)
  have law := vmaFreeMemoryFromKtree_unchanged_iff initial _ (vmaInit_trees built)
  refine ⟨initial, built, (law _).mpr checked.1, ?_⟩
  intro unchanged
  exact checked.2 ((law _).mp unchanged)

/-- In the state `vma_init` leaves, an address inside the first region is not found, and the
missing node is dereferenced. -/
theorem vmaFreeMemoryFromKtree_misses :
    ∃ initial, vmaInit Vmm.emptyTables = .ok initial ∧
      (∀ tree, ∀ node ∈ (initial.shapes tree).inorder,
        initial.startOf node ≠ kernelHeapStart + 8) ∧
      vmaFreeMemoryFromKtree (kernelHeapStart + 8) initial = .error .nullDereference := by
  obtain ⟨initial, built, checked⟩ : ∃ initial, vmaInit Vmm.emptyTables = .ok initial ∧
      ((∀ node ∈ (initial.shapes .heap).inorder, initial.startOf node ≠ kernelHeapStart + 8 ∧
          ¬ initial.LeadsTo (initial.shapes .heap) (kernelHeapStart + 8) node) ∧
        ∀ node ∈ (initial.shapes .mmio).inorder, initial.startOf node ≠ kernelHeapStart + 8) :=
    exists_of_checked _ (by decide +kernel)
  refine ⟨initial, built, ?_, ?_⟩
  · intro tree node member
    cases tree with
    | heap => exact (checked.1 node member).1
    | mmio => exact checked.2 node member
  · rw [vmaFreeMemoryFromKtree_eq (by decide)]
    exact (vmaInit_trees built).free_missed (fun node member => (checked.1 node member).2)

end Vma

end Fesos
