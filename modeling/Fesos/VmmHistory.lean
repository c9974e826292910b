/-
What the walk takes from the frame manager.

The manager reports failure by address 0 and the walk does not look at it.  The
history of entry stores tells whether an operation ever entered frame 0: a walk did
not exactly when the manager could supply every table that was missing and frame 0
itself was not handed out.  Queries and unmapping store nothing else that is present.
-/

import Fesos.VmmMap

set_option autoImplicit false

namespace Fesos

open List

def PageTableEntry.FrameZero (entry : PageTableEntry) : Prop :=
  entry.present = true ∧ entry.physicalAddress = 0

instance (entry : PageTableEntry) : Decidable entry.FrameZero :=
  inferInstanceAs (Decidable (_ ∧ _))

namespace Vmm

/-! ### The history of an operation -/

/-- None of the entries stored between two states is one for frame 0. -/
def Clean (before after : Vmm) : Prop :=
  ∃ new, after.stores = new ++ before.stores ∧ ∀ entry ∈ new, ¬ entry.FrameZero

theorem clean_iff {before after : Vmm} {new : List PageTableEntry}
    (history : after.stores = new ++ before.stores) :
    Clean before after ↔ ∀ entry ∈ new, ¬ entry.FrameZero := by
  constructor
  · intro clean
    obtain ⟨other, same, harmless⟩ := clean
    rw [history] at same
    rw [append_cancel_right same]
    exact harmless
  · intro harmless
    exact ⟨new, history, harmless⟩

theorem clean_refl (vmm : Vmm) : Clean vmm vmm :=
  ⟨[], rfl, fun _ member => absurd member not_mem_nil⟩

theorem clean_trans_iff {first second third : Vmm} (left : first.stores <:+ second.stores)
    (right : second.stores <:+ third.stores) :
    Clean first third ↔ Clean first second ∧ Clean second third := by
  obtain ⟨early, earlyIs⟩ := left
  obtain ⟨late, lateIs⟩ := right
  have whole : third.stores = (late ++ early) ++ first.stores := by
    rw [← lateIs, ← earlyIs, append_assoc]
  rw [clean_iff whole, clean_iff earlyIs.symm, clean_iff lateIs.symm]
  constructor
  · intro harmless
    exact ⟨fun entry member => harmless entry (mem_append_right _ member),
      fun entry member => harmless entry (mem_append_left _ member)⟩
  · intro harmless entry member
    rcases mem_append.mp member with inLate | inEarly
    · exact harmless.2 entry inLate
    · exact harmless.1 entry inEarly

theorem clean_store (vmm : Vmm) (table : Nat) (index : Fin 512) (value : PageTableEntry) :
    Clean vmm (vmm.storeEntry table index value) ↔ ¬ value.FrameZero := by
  have history : (vmm.storeEntry table index value).stores = [value] ++ vmm.stores := rfl
  rw [clean_iff history]
  simp

theorem store_grows (vmm : Vmm) (table : Nat) (index : Fin 512) (value : PageTableEntry) :
    vmm.stores <:+ (vmm.storeEntry table index value).stores :=
  suffix_cons value vmm.stores

theorem walk_grows (vmm : Vmm) (table : Nat) (index : Fin 512) :
    vmm.stores <:+ (vmm.vmmWalkAndCrateNextTable table index).2.stores := by
  have step := walk_outcome vmm table index
  generalize vmm.vmmWalkAndCrateNextTable table index = result at step
  cases step with
  | follow present => exact suffix_refl _
  | create frame absent free least => exact suffix_cons _ _
  | starve absent empty => exact suffix_cons _ _

theorem walkTo_grows (vmm : Vmm) (path : List (Fin 512)) :
    vmm.stores <:+ (vmm.walkTo path).2.stores := by
  induction path with
  | nil => exact suffix_refl _
  | cons index parent ih => exact ih.trans (walk_grows _ _ _)

/-! ### What the walk costs -/

/-- The manager can supply the missing tables, and frame 0 is not among the frames
it would take. -/
def Affords (vmm : Vmm) (paths : Finset (List (Fin 512))) : Prop :=
  vmm.missingTables paths = ∅ ∨ (0 ∉ freeFrames vmm.pmm ∧ vmm.Supplied paths)

section Cost

variable {vmm : Vmm} {path : List (Fin 512)} {table : Nat} {index : Fin 512}
  {paths : Finset (List (Fin 512))}

/-- The walk never installs frame 0 exactly when it needs no frame or gets another one. -/
theorem walk_clean_iff :
    Clean vmm (vmm.vmmWalkAndCrateNextTable table index).2 ↔
      ((vmm.entry table index).present = false →
        freeFrames vmm.pmm ≠ ∅ ∧ 0 ∉ freeFrames vmm.pmm) := by
  have step := walk_outcome vmm table index
  generalize vmm.vmmWalkAndCrateNextTable table index = result at step
  cases step with
  | follow present =>
    refine ⟨fun _ absent => ?_, fun _ => clean_refl vmm⟩
    rw [present] at absent
    cases absent
  | create frame absent free least =>
    have history : (vmm.withTable table index frame).stores =
        [tableEntry ((vmm.pmm.claim frame 1).ram table index) frame] ++ vmm.stores := rfl
    rw [clean_iff history]
    simp only [mem_singleton, forall_eq, PageTableEntry.FrameZero,
      tableEntry_physical vmm.pmm _ free]
    constructor
    · intro nonzero _absent
      refine ⟨Finset.ne_empty_of_mem free, fun zeroFree => ?_⟩
      have positive : 0 < frame := Nat.pos_of_ne_zero (fun zero => nonzero ⟨rfl, zero⟩)
      exact least 0 positive zeroFree
    · intro supplied zero
      apply (supplied absent).2
      rw [← zero.2]
      exact free
  | starve absent empty =>
    rw [clean_store]
    constructor
    · intro nonzero
      exact absurd ⟨rfl, rfl⟩ nonzero
    · intro supplied
      exact absurd empty (supplied absent).1

theorem walk_affords (formed : vmm.WellFormed) (short : path.length ≤ 2)
    (here : vmm.tableAt path = some table)
    (pathsShort : ∀ other ∈ paths, other.length ≤ 3) (member : index :: path ∈ paths) :
    vmm.Affords paths ↔
      Clean vmm (vmm.vmmWalkAndCrateNextTable table index).2 ∧
        (vmm.vmmWalkAndCrateNextTable table index).2.Affords paths := by
  rw [walk_clean_iff]
  have step := walk_outcome vmm table index
  generalize vmm.vmmWalkAndCrateNextTable table index = result at step
  cases step with
  | follow present => simp [present]
  | create frame absent free least =>
    have missing := mem_missingTables here absent member
    have someMissing := Finset.card_pos.mpr ⟨_, missing⟩
    have someFree := Finset.card_pos.mpr ⟨_, free⟩
    have notNone : vmm.missingTables paths ≠ ∅ := Finset.ne_empty_of_mem missing
    have nonempty : freeFrames vmm.pmm ≠ ∅ := Finset.ne_empty_of_mem free
    unfold Affords Supplied
    rw [withTable_missing formed short here absent free pathsShort, withTable_freeFrames,
      Finset.card_erase_of_mem missing, Finset.card_erase_of_mem free,
      ← Finset.card_eq_zero, ← Finset.card_eq_zero (s := (vmm.missingTables paths).erase _),
      Finset.card_erase_of_mem missing, Finset.mem_erase]
    constructor
    · intro affords
      rcases affords with none | ⟨zeroUsed, enough⟩
      · omega
      · exact ⟨fun _ => ⟨nonempty, zeroUsed⟩, Or.inr ⟨fun both => zeroUsed both.2, by omega⟩⟩
    · intro affords
      refine Or.inr ⟨(affords.1 absent).2, ?_⟩
      rcases affords.2 with last | ⟨_zeroUsed, enough⟩
      · omega
      · omega
  | starve absent empty =>
    have missing := mem_missingTables here absent member
    have someMissing := Finset.card_pos.mpr ⟨_, missing⟩
    constructor
    · intro affords
      rcases affords with none | ⟨_zeroUsed, enough⟩
      · exact absurd none (Finset.ne_empty_of_mem missing)
      · unfold Supplied at enough
        rw [empty, Finset.card_empty] at enough
        omega
    · intro both
      exact absurd empty (both.1 absent).1

/-- A walk without a store for frame 0 reaches the table of its path. -/
theorem walkTo_clean (path : List (Fin 512)) (short : path.length ≤ 3) (formed : vmm.WellFormed)
    (small : ∀ entry, vmm.slot path = some entry → entry.hugePage = false)
    (clean : Clean vmm (vmm.walkTo path).2) :
    Walked vmm (vmm.walkTo path).2 path.length ∧
      (vmm.walkTo path).2.tableAt path = some (vmm.walkTo path).1 := by
  induction path with
  | nil => exact ⟨Walked.refl _ formed, rfl⟩
  | cons index parent ih =>
    have parentShort : parent.length ≤ 2 := Nat.le_of_succ_le_succ short
    obtain ⟨cleanParent, cleanStep⟩ :=
      (clean_trans_iff (walkTo_grows vmm parent) (walk_grows _ _ index)).mp clean
    obtain ⟨walked, atParent⟩ := ih (by omega)
      (fun entry held => slot_high formed.shaped parentShort held) cleanParent
    have sameSlot := walked.sameSlot (index :: parent) (Nat.lt_succ_self _)
      (Nat.le_succ_of_le short)
    obtain ⟨step, atPath⟩ := walk_reaches walked.formed parentShort atParent
      (by rw [sameSlot]; exact small)
      (fun absent => (walk_clean_iff.mp cleanStep absent).1)
    exact ⟨walked.trans step (Nat.le_succ _), atPath⟩

theorem walkTo_affords (path : List (Fin 512)) (short : path.length ≤ 3) (formed : vmm.WellFormed)
    (pathsShort : ∀ other ∈ paths, other.length ≤ 3) (covered : tablesOf path ⊆ paths) :
    vmm.Affords paths ↔
      Clean vmm (vmm.walkTo path).2 ∧ (vmm.walkTo path).2.Affords paths := by
  induction path with
  | nil => exact ⟨fun affords => ⟨clean_refl vmm, affords⟩, fun both => both.2⟩
  | cons index parent ih =>
    have parentShort : parent.length ≤ 2 := Nat.le_of_succ_le_succ short
    have above := ih (by omega)
      (fun other inParent => covered (Finset.mem_insert_of_mem inParent))
    have split : Clean vmm (vmm.walkTo (index :: parent)).2 ↔ _ :=
      clean_trans_iff (walkTo_grows vmm parent) (walk_grows _ _ index)
    rw [above, split, and_assoc]
    apply and_congr_right
    intro cleanParent
    obtain ⟨walked, atParent⟩ := walkTo_clean parent (by omega) formed
      (fun entry held => slot_high formed.shaped parentShort held) cleanParent
    exact walk_affords walked.formed parentShort atParent pathsShort
      (covered (Finset.mem_insert_self _ _))

theorem tablesOf_exist (path : List (Fin 512)) {table : Nat}
    (here : vmm.tableAt path = some table) {other : List (Fin 512)}
    (member : other ∈ tablesOf path) : vmm.tableAt other ≠ none := by
  induction path generalizing table with
  | nil => cases member
  | cons index parent ih =>
    rcases Finset.mem_insert.mp member with isPath | above
    · rw [isPath, here]
      simp
    cases parentAt : vmm.tableAt parent with
    | none =>
      rw [tableAt_below_none parentAt] at here
      cases here
    | some parentTable => exact ih parentAt above

theorem affords_union (path : List (Fin 512)) (here : vmm.tableAt path = some table) :
    vmm.Affords (tablesOf path ∪ paths) ↔ vmm.Affords paths := by
  have same : vmm.missingTables (tablesOf path ∪ paths) = vmm.missingTables paths := by
    ext other
    unfold missingTables
    rw [Finset.mem_filter, Finset.mem_filter, Finset.mem_union]
    constructor
    · intro both
      rcases both.1 with above | inPaths
      · exact absurd both.2 (tablesOf_exist path here above)
      · exact ⟨inPaths, both.2⟩
    · intro both
      exact ⟨Or.inr both.1, both.2⟩
  unfold Affords Supplied
  rw [same]

theorem affords_nothing : vmm.Affords ∅ := Or.inl rfl

theorem affords_existing (path : List (Fin 512)) (here : vmm.tableAt path = some table) :
    vmm.Affords (tablesOf path) := by
  rw [← Finset.union_empty (tablesOf path), affords_union path here]
  exact affords_nothing

theorem affords_store {value : PageTableEntry} (formed : vmm.WellFormed) (short : path.length ≤ 3)
    (here : vmm.tableAt path = some table) (terminal : vmm.Terminal path table index value)
    (pathsShort : ∀ other ∈ paths, other.length ≤ 3) :
    (vmm.storeEntry table index value).Affords paths ↔ vmm.Affords paths := by
  unfold Affords Supplied
  rw [storeSlot_missing formed short here terminal pathsShort, storeEntry_freeFrames]

theorem walkTo_clean_iff (path : List (Fin 512)) (short : path.length ≤ 3)
    (formed : vmm.WellFormed)
    (small : ∀ entry, vmm.slot path = some entry → entry.hugePage = false) :
    Clean vmm (vmm.walkTo path).2 ↔ vmm.Affords (tablesOf path) := by
  have cost := walkTo_affords path short formed
    (fun other member => (tablesOf_short member).trans short) (Finset.Subset.refl _)
  constructor
  · intro clean
    exact cost.mpr ⟨clean, affords_existing path (walkTo_clean path short formed small clean).2⟩
  · intro affords
    exact (cost.mp affords).1

end Cost

/-! ### Queries -/

/-- The tables a query of an address goes through; a huge page ends the walk early. -/
def queryPaths (vmm : Vmm) (vAddr : Nat) : Finset (List (Fin 512)) :=
  if vmm.hugeAt vAddr then ∅ else walkPaths vAddr

section Queries

variable {vmm : Vmm} {vAddr : Nat}

theorem pd_of_huge (huge : vmm.hugeAt vAddr = true) : ∃ pd, vmm.tableAt (pdPath vAddr) = some pd := by
  cases atPd : vmm.tableAt (pdPath vAddr) with
  | some pd => exact ⟨pd, rfl⟩
  | none =>
    have held : vmm.slot (ptPath vAddr) = none := slot_below_none atPd
    unfold hugeAt at huge
    rw [held] at huge
    cases huge

theorem walkToPd_of_huge (formed : vmm.WellFormed) (huge : vmm.hugeAt vAddr = true) :
    (vmm.walkToPd vAddr).2 = vmm ∧
      ((vmm.walkToPd vAddr).2.entry (vmm.walkToPd vAddr).1 (pdIndex vAddr)).hugePage = true := by
  obtain ⟨pd, atPd⟩ := pd_of_huge huge
  rw [walkToPd_eq, walkTo_existing _ atPd]
  exact ⟨rfl, (hugePage_at_pd (Walked.refl 2 formed) atPd).trans huge⟩

theorem walkToPd_clean_hugePage (formed : vmm.WellFormed)
    (clean : Clean vmm (vmm.walkToPd vAddr).2) :
    ((vmm.walkToPd vAddr).2.entry (vmm.walkToPd vAddr).1 (pdIndex vAddr)).hugePage =
      vmm.hugeAt vAddr := by
  obtain ⟨walked, atPd⟩ := walkTo_clean (pdPath vAddr) (by simp [pdPath]) formed
    (fun entry held => slot_high formed.shaped (by simp [pdPath]) held) clean
  exact hugePage_at_pd walked atPd

def queried (vmm : Vmm) (vAddr : Nat) : Vmm :=
  if ((vmm.walkToPd vAddr).2.entry (vmm.walkToPd vAddr).1 (pdIndex vAddr)).hugePage then
    (vmm.walkToPd vAddr).2
  else (vmm.walkToPt vAddr).2

theorem vmmGetPhysicalFromVirtual_state (vmm : Vmm) (vAddr : Nat) :
    (vmm.vmmGetPhysicalFromVirtual vAddr).2 = vmm.queried vAddr := by
  unfold vmmGetPhysicalFromVirtual queried walkToPt
  dsimp only
  rw [apply_ite Prod.snd]

theorem vmmGetPte_state (vmm : Vmm) (vAddr : Nat) :
    (vmm.vmmGetPte vAddr).2 = vmm.queried vAddr := by
  unfold vmmGetPte queried walkToPt
  dsimp only
  rw [apply_ite Prod.snd]

theorem queried_clean_iff (formed : vmm.WellFormed) :
    Clean vmm (vmm.queried vAddr) ↔ vmm.Affords (vmm.queryPaths vAddr) := by
  unfold queried queryPaths
  cases huge : vmm.hugeAt vAddr with
  | true =>
    obtain ⟨same, isHuge⟩ := walkToPd_of_huge formed huge
    rw [if_pos isHuge, same, if_pos rfl]
    exact ⟨fun _ => affords_nothing, fun _ => clean_refl vmm⟩
  | false =>
    have split := clean_trans_iff (walkTo_grows vmm (pdPath vAddr))
      (walk_grows (vmm.walkToPd vAddr).2 (vmm.walkToPd vAddr).1 (pdIndex vAddr))
    have cost := walkTo_clean_iff (ptPath vAddr) (by simp [ptPath]) formed
      (fun entry held => slot_of_not_huge huge held)
    have viaPd : Clean vmm (vmm.walkToPt vAddr).2 → Clean vmm (vmm.walkToPd vAddr).2 :=
      fun clean => (split.mp clean).1
    simp only [Bool.false_eq_true, if_false]
    constructor
    · intro clean
      split at clean
      · rename_i isHuge
        rw [walkToPd_clean_hugePage formed clean, huge] at isHuge
        cases isHuge
      · exact cost.mp clean
    · intro affords
      have clean := cost.mpr affords
      rw [walkToPd_clean_hugePage formed (viaPd clean), huge]
      exact clean

end Queries

/-! ### Unmapping -/

theorem rangePaths_succ (vAddr pages : Nat) :
    rangePaths vAddr (pages + 1) =
      walkPaths vAddr ∪ rangePaths (word (vAddr + 0x1000)) pages := by
  have later : ∀ offset, walkPaths (word (vAddr + 0x1000) + 4096 * offset) =
      walkPaths (vAddr + 4096 * (offset + 1)) := by
    intro offset
    rw [walkPaths_congr (page_word (vAddr + 0x1000) (4096 * offset))]
    congr 1
    omega
  ext path
  simp only [rangePaths, Finset.mem_union, Finset.mem_biUnion, Finset.mem_range, later]
  constructor
  · intro member
    obtain ⟨offset, inRange, inWalk⟩ := member
    cases offset with
    | zero => exact Or.inl inWalk
    | succ offset => exact Or.inr ⟨offset, by omega, inWalk⟩
  · intro member
    rcases member with first | ⟨offset, inRange, inWalk⟩
    · exact ⟨0, by omega, first⟩
    · exact ⟨offset + 1, by omega, inWalk⟩

theorem unmapPages_grows (pages vAddr : Nat) (vmm : Vmm) :
    vmm.stores <:+ (unmapPages pages vAddr vmm).stores := by
  induction pages generalizing vAddr vmm with
  | zero => exact suffix_refl _
  | succ pages ih =>
    have toPd := walkTo_grows vmm (pdPath vAddr)
    simp only [unmapPages]
    split
    · exact toPd.trans ((store_grows _ _ _ _).trans (ih _ _))
    · exact toPd.trans ((walk_grows _ _ _).trans ((store_grows _ _ _ _).trans (ih _ _)))

theorem unmapPages_clean_pd {vmm : Vmm} {pages vAddr : Nat}
    (clean : Clean vmm (unmapPages (pages + 1) vAddr vmm)) :
    Clean vmm (vmm.walkToPd vAddr).2 := by
  refine ((clean_trans_iff (walkTo_grows vmm (pdPath vAddr)) ?_).mp clean).1
  simp only [unmapPages]
  split
  · exact (store_grows _ _ _ _).trans (unmapPages_grows _ _ _)
  · exact (walk_grows _ _ _).trans ((store_grows _ _ _ _).trans (unmapPages_grows _ _ _))

/-- Clearing a reached leaf stores no frame 0 and leaves the cost of the rest. -/
theorem unmapPages_reached {before vmm : Vmm} {pages vAddr pt : Nat} (walked : Walked before vmm 3)
    (atPt : vmm.tableAt (ptPath vAddr) = some pt) {next : Vmm}
    (isNext : next = vmm.storeEntry pt (ptIndex vAddr) PageTableEntry.zero)
    (rest : Clean next (unmapPages pages (word (vAddr + 0x1000)) next) ↔
      next.Affords (rangePaths (word (vAddr + 0x1000)) pages)) :
    Clean vmm (unmapPages pages (word (vAddr + 0x1000)) next) ↔
      vmm.Affords (rangePaths vAddr (pages + 1)) := by
  have terminal : vmm.Terminal (ptPath vAddr) pt (ptIndex vAddr) PageTableEntry.zero := Or.inl rfl
  have reachable : (ptPath vAddr).length ≤ 3 := Nat.le_refl 3
  have stays := (storeSlot_tableAt walked.formed.shaped reachable atPt terminal _ reachable).trans atPt
  have pathsShort : ∀ other ∈ rangePaths vAddr (pages + 1), other.length ≤ 3 :=
    fun other member => rangePaths_short member
  have sameCost := affords_store walked.formed reachable atPt terminal pathsShort
  rw [isNext] at rest ⊢
  rw [clean_trans_iff (store_grows _ _ _ _) (unmapPages_grows _ _ _), clean_store, rest, ← sameCost,
    rangePaths_succ, walkPaths, affords_union _ stays]
  exact and_iff_right (by decide)

theorem unmapPages_clean_iff (pages vAddr : Nat) (vmm : Vmm) (formed : vmm.WellFormed)
    (small : ∀ offset < pages, vmm.hugeAt (vAddr + 4096 * offset) = false) :
    Clean vmm (unmapPages pages vAddr vmm) ↔ vmm.Affords (rangePaths vAddr pages) := by
  induction pages generalizing vAddr vmm with
  | zero => exact ⟨fun _ => affords_nothing, fun _ => clean_refl vmm⟩
  | succ pages ih =>
    have smallHere : vmm.hugeAt vAddr = false := by simpa using small 0 (by omega)
    have pathsShort : ∀ other ∈ rangePaths vAddr (pages + 1), other.length ≤ 3 :=
      fun other member => rangePaths_short member
    have cost := walkTo_affords (ptPath vAddr) (Nat.le_refl 3) formed pathsShort
      (by rw [rangePaths_succ]; exact Finset.subset_union_left)
    have smallEntry : Clean vmm (vmm.walkToPd vAddr).2 →
        ((vmm.walkToPd vAddr).2.entry (vmm.walkToPd vAddr).1 (pdIndex vAddr)).hugePage = false :=
      fun clean => (walkToPd_clean_hugePage formed clean).trans smallHere
    have throughPd := clean_trans_iff (walkTo_grows vmm (pdPath vAddr))
      (walk_grows (vmm.walkToPd vAddr).2 (vmm.walkToPd vAddr).1 (pdIndex vAddr))
    have throughPt := clean_trans_iff (walkTo_grows vmm (ptPath vAddr))
      ((store_grows _ (vmm.walkToPt vAddr).1 (ptIndex vAddr) PageTableEntry.zero).trans
        (unmapPages_grows pages (word (vAddr + 0x1000)) _))
    have reached : Clean vmm (vmm.walkToPt vAddr).2 →
        (Clean (vmm.walkToPt vAddr).2 (unmapPages pages (word (vAddr + 0x1000))
          ((vmm.walkToPt vAddr).2.storeEntry (vmm.walkToPt vAddr).1 (ptIndex vAddr)
            PageTableEntry.zero)) ↔
          (vmm.walkToPt vAddr).2.Affords (rangePaths vAddr (pages + 1))) := by
      intro clean
      obtain ⟨walked, atPt⟩ := walkTo_clean (ptPath vAddr) (Nat.le_refl 3) formed
        (fun entry held => slot_of_not_huge smallHere held) clean
      have next := store_at_pt walked atPt PageTableEntry.zero (Or.inr rfl)
      apply unmapPages_reached walked atPt rfl
      apply ih (word (vAddr + 0x1000)) _ next.formed
      intro offset inRange
      have later := small (offset + 1) (by omega)
      rw [Nat.mul_succ, Nat.add_comm (4096 * offset), ← Nat.add_assoc] at later
      rw [next.sameHuge, hugeAt_congr _ (page_word (vAddr + 0x1000) (4096 * offset))]
      exact later
    rw [cost]
    constructor
    · intro clean
      rw [unmapPages_small (smallEntry (unmapPages_clean_pd clean))] at clean
      have both := throughPt.mp clean
      exact ⟨both.1, (reached both.1).mp both.2⟩
    · intro both
      rw [unmapPages_small (smallEntry (throughPd.mp both.1).1)]
      exact throughPt.mpr ⟨both.1, (reached both.1).mpr both.2⟩

end Vmm
end Fesos
