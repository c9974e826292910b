/-
Requests that meet what is already mapped, and 2 MiB pages.

`vmm_map` stops at the first present entry and keeps what it entered before.  An entry
made for the first page stays, since later rounds store at absent entries only and clear
free frames only.  For 2 MiB pages the physical address is not advanced, translation drops
the offset, and a 4 KiB request inside such a page takes the mapped memory for a page
table.
-/

import Fesos.VmmKept

set_option autoImplicit false

namespace Fesos
namespace Vmm

/-! ### The first page of a request -/

variable {vmm : Vmm}

theorem walk_root_small (formed : vmm.WellFormed) (index : Fin 512) :
    ((vmm.vmmWalkAndCrateNextTable vmm.pml4 index).2.entry vmm.pml4 index).hugePage = false := by
  have root : vmm.tableAt [] = some vmm.pml4 := rfl
  have small : (vmm.entry vmm.pml4 index).hugePage = false :=
    formed.noHuge [] vmm.pml4 index (Nat.zero_le 1) root
  have step := walk_outcome vmm vmm.pml4 index
  generalize vmm.vmmWalkAndCrateNextTable vmm.pml4 index = result at step
  cases step with
  | follow present => exact small
  | create frame absent free least =>
    have apart : vmm.pml4 ≠ frame := fun same => formed.rootSettled (same ▸ free)
    rw [withTable_entry vmm vmm.pml4 frame vmm.pml4 index index apart free, if_pos ⟨rfl, rfl⟩]
    exact small
  | starve absent empty =>
    rw [storeEntry_entry, if_pos ⟨rfl, rfl⟩]
    exact small

theorem walkTo_root_small (formed : vmm.WellFormed) (flags vAddr : Nat) (after : Vmm)
    (kept : Kept (vmm.walkTo (leafTable flags vAddr)).2 after) :
    (after.entry after.pml4 (pml4Index vAddr)).hugePage = false := by
  have settled := formed.rootSettled
  have first := walk_kept vmm vmm.pml4 (pml4Index vAddr)
  have present := (walk_arrives vmm vmm.pml4 (pml4Index vAddr)).1
  have toPd := walk_kept (vmm.walkTo [pml4Index vAddr]).2 (vmm.walkTo [pml4Index vAddr]).1
    (pdptIndex vAddr)
  have toPt := walk_kept (vmm.walkToPd vAddr).2 (vmm.walkToPd vAddr).1 (pdIndex vAddr)
  have fromFirst : Kept (vmm.vmmWalkAndCrateNextTable vmm.pml4 (pml4Index vAddr)).2 after := by
    unfold leafTable at kept
    split at kept
    · exact toPd.trans kept
    · exact toPd.trans (toPt.trans kept)
  rw [fromFirst.root, first.root,
    fromFirst.entries vmm.pml4 (pml4Index vAddr) (fun free => settled (first.free free)) present]
  exact walk_root_small formed _

variable {flags table vAddr : Nat}

/-- An address is mapped once all entries on the way to its leaf are present. -/
theorem mapping_of_anchored
    (anchored : vmm.Anchored (leafTable flags vAddr) table)
    (rootSmall : (vmm.entry vmm.pml4 (pml4Index vAddr)).hugePage = false)
    (present : (vmm.entry table (leafIndex flags vAddr)).present = true)
    (huge : flagBit flags 4 = true →
      (vmm.entry table (leafIndex flags vAddr)).hugePage = true) :
    vmm.mapping vAddr ≠ none := by
  have below : ∀ pd, vmm.Anchored (pdPath vAddr) pd →
      (vmm.entry pd (pdIndex vAddr)).present = true →
      ((vmm.entry pd (pdIndex vAddr)).hugePage = false →
        (vmm.entry (vmm.entry pd (pdIndex vAddr)).physicalAddress (ptIndex vAddr)).present = true) →
      vmm.mapping vAddr ≠ none := by
    intro pd above pdPresent leafPresent
    obtain ⟨pdpt, ⟨root, isRoot, rootPresent, rootLeads, _⟩, pdptPresent, pdptLeads, _⟩ := above
    rw [isRoot.1] at rootPresent rootLeads
    have atPdpt : vmm.tableAt [pml4Index vAddr] = some pdpt := by
      have here : vmm.tableAt [] = some vmm.pml4 := rfl
      rw [tableAt_cons here, PageTableEntry.isTable, rootPresent, rootSmall, ← rootLeads]
      rfl
    have heldPd : vmm.slot (pdPath vAddr) = some (vmm.entry pdpt (pdptIndex vAddr)) := by
      rw [pdPath, slot_cons atPdpt, if_pos pdptPresent]
    unfold mapping
    rw [heldPd]
    cases pointerHuge : (vmm.entry pdpt (pdptIndex vAddr)).hugePage with
    | true => simp [pointerHuge]
    | false =>
      have atPd : vmm.tableAt (pdPath vAddr) = some pd := by
        rw [pdPath, tableAt_cons atPdpt, PageTableEntry.isTable, pdptPresent, pointerHuge,
          ← pdptLeads]
        rfl
      have heldPt : vmm.slot (ptPath vAddr) = some (vmm.entry pd (pdIndex vAddr)) := by
        have cons : vmm.slot (ptPath vAddr) = _ := slot_cons atPd
        rw [cons, if_pos pdPresent]
      rw [heldPt]
      cases directoryHuge : (vmm.entry pd (pdIndex vAddr)).hugePage with
      | true => simp [pointerHuge, directoryHuge]
      | false =>
        have atPt : vmm.tableAt (ptPath vAddr) =
            some (vmm.entry pd (pdIndex vAddr)).physicalAddress := by
          have cons : vmm.tableAt (ptPath vAddr) = _ := tableAt_cons atPd
          rw [cons, PageTableEntry.isTable, pdPresent, directoryHuge]
          rfl
        have heldLeaf : vmm.leaf vAddr = some (vmm.entry
            (vmm.entry pd (pdIndex vAddr)).physicalAddress (ptIndex vAddr)) := by
          rw [leaf, slot_cons atPt, if_pos (leafPresent directoryHuge)]
        simp [pointerHuge, directoryHuge, heldLeaf]
  unfold leafTable at anchored
  unfold leafIndex at present huge
  split at anchored
  · rename_i isHuge
    rw [if_pos isHuge] at present huge
    refine below table anchored present (fun small => ?_)
    rw [huge isHuge] at small
    cases small
  · rename_i small
    rw [if_neg small] at present
    obtain ⟨pd, above, pdPresent, leads, _settled⟩ := anchored
    rw [← leads] at present
    exact below pd above pdPresent (fun _ => present)

def Unmapped (vmm : Vmm) (flags vAddr : Nat) : Prop :=
  vmm.slot (leafSlot flags vAddr) = none ∧ (flagBit flags 4 = false → vmm.hugeAt vAddr = false)

theorem Unmapped.mapping (formed : vmm.WellFormed)
    (unmapped : vmm.Unmapped flags vAddr) : vmm.mapping vAddr = none := by
  obtain ⟨absent, small⟩ := unmapped
  unfold Vmm.mapping
  cases heldPd : vmm.slot (pdPath vAddr) with
  | none => rfl
  | some pointer =>
    have pointerSmall := pd_small formed pointer heldPd
    simp only [pointerSmall, Bool.false_eq_true, if_false]
    cases heldPt : vmm.slot (ptPath vAddr) with
    | none => rfl
    | some directory =>
      cases huge : flagBit flags 4 with
      | true =>
        have same : leafSlot flags vAddr = ptPath vAddr := by
          unfold leafSlot leafIndex leafTable
          rw [huge]
          rfl
        rw [same, heldPt] at absent
        cases absent
      | false =>
        have same : vmm.leaf vAddr = vmm.slot (leafSlot flags vAddr) := by
          unfold leaf leafSlot leafIndex leafTable
          rw [huge]
          rfl
        have directorySmall := slot_of_not_huge (small huge) heldPt
        simp only [directorySmall, Bool.false_eq_true, if_false, same, absent, Option.map_none]

theorem leafEntry_huge (huge : flagBit flags 4 = true) (old : PageTableEntry)
    (pAddr : Nat) : (leafEntry flags old pAddr).hugePage = true := by
  unfold leafEntry
  rw [huge]
  rfl

/-- A page that was entered is mapped when the request ends, however it ends. -/
theorem mapPages_first_stays (pages pAddr : Nat)
    (formed : vmm.WellFormed)
    (unmapped : vmm.Unmapped flags vAddr)
    (absent : ((vmm.walkTo (leafTable flags vAddr)).2.entry
      (vmm.walkTo (leafTable flags vAddr)).1 (leafIndex flags vAddr)).present = false) :
    (mapPages flags (pages + 1) vAddr pAddr vmm).2.mapping vAddr ≠ none := by
  have anchored := (walkTo_anchored formed (leafTable flags vAddr)
    (leafTable_short flags vAddr) (fun _ held => leafTable_small formed unmapped.2 held)).1
  have rootSmall := walkTo_root_small formed flags vAddr
  rw [mapPages_succ, if_neg (by simp [absent])]
  generalize vmm.walkTo (leafTable flags vAddr) = reached at *
  have stored := store_kept (leafEntry flags (reached.2.entry reached.1 (leafIndex flags vAddr)) pAddr)
    absent
  have atLeaf : (reached.2.storeEntry reached.1 (leafIndex flags vAddr)
      (leafEntry flags (reached.2.entry reached.1 (leafIndex flags vAddr)) pAddr)).entry reached.1
        (leafIndex flags vAddr) =
      leafEntry flags (reached.2.entry reached.1 (leafIndex flags vAddr)) pAddr := by
    rw [storeEntry_entry, if_pos ⟨rfl, rfl⟩]
  generalize reached.2.storeEntry reached.1 (leafIndex flags vAddr)
    (leafEntry flags (reached.2.entry reached.1 (leafIndex flags vAddr)) pAddr) = next at *
  have rest := mapPages_kept flags pages (word (vAddr + stride flags)) (nextPAddr flags pAddr) next
  have settled := (stored.anchored anchored).settled
  have present : (next.entry reached.1 (leafIndex flags vAddr)).present = true := by
    rw [atLeaf]
    exact leafEntry_present _ _ _
  have same := rest.entries reached.1 (leafIndex flags vAddr) settled present
  apply mapping_of_anchored (rest.anchored (stored.anchored anchored))
    (rootSmall _ (stored.trans rest))
  · rw [same]
    exact present
  · intro huge
    rw [same, atLeaf]
    exact leafEntry_huge huge _ _

/-- A page whose leaf is present, on a way that stays, stops the request. -/
theorem mapPages_refused (pages vAddr pAddr conflict : Nat) (vmm : Vmm)
    (inRange : conflict < pages)
    (anchored : vmm.Anchored (leafTable flags (vAddr + stride flags * conflict)) table)
    (present : (vmm.entry table (leafIndex flags (vAddr + stride flags * conflict))).present = true) :
    (mapPages flags pages vAddr pAddr vmm).1 = -EEXIST := by
  induction pages generalizing vAddr pAddr conflict vmm with
  | zero => exact absurd inRange (Nat.not_lt_zero _)
  | succ pages ih =>
    rw [mapPages_succ]
    cases conflict with
    | zero =>
      rw [Nat.mul_zero, Nat.add_zero] at anchored present
      rw [anchored.walkTo, if_pos present]
    | succ conflict =>
      split
      · rfl
      rename_i absent
      have kept := (walkTo_kept vmm (leafTable flags vAddr)).trans
        (store_kept (leafEntry flags ((vmm.walkTo (leafTable flags vAddr)).2.entry
          (vmm.walkTo (leafTable flags vAddr)).1 (leafIndex flags vAddr)) pAddr)
          (Bool.eq_false_iff.mpr absent))
      have later : leafSlot flags (word (vAddr + stride flags) + stride flags * conflict) =
          leafSlot flags (vAddr + stride flags * (conflict + 1)) := by
        rw [leafSlot_congr flags (page_word _ _), Nat.mul_succ,
          Nat.add_comm (stride flags * conflict), Nat.add_assoc]
      injection later with sameIndex sameTable
      apply ih _ _ conflict _ (Nat.lt_of_succ_lt_succ inRange)
      · rw [sameTable]
        exact kept.anchored anchored
      · rw [sameIndex, kept.entries _ _ anchored.settled present]
        exact present

theorem taken_anchored (formed : vmm.WellFormed)
    (taken : vmm.slot (leafSlot flags vAddr) ≠ none) :
    ∃ table, vmm.Anchored (leafTable flags vAddr) table ∧
      (vmm.entry table (leafIndex flags vAddr)).present = true := by
  cases here : vmm.tableAt (leafTable flags vAddr) with
  | none => exact absurd (slot_below_none here) taken
  | some table =>
    refine ⟨table, formed.anchored (leafTable_short flags vAddr) here, ?_⟩
    by_contra absent
    exact taken (slot_absent here (Bool.eq_false_iff.mpr absent))

/-- A request refused because page `conflict` of its range is mapped, after the pages
before it were entered, leaves presence and translation of all pages as they were exactly
when the conflict is at the first page. -/
theorem vmmMap_refused_unchanged_iff (vmm : Vmm) (formed : vmm.WellFormed)
    (vAddr pAddr pages flags conflict : Nat) (inRange : conflict < pages)
    (taken : vmm.slot (leafSlot flags (vAddr + stride flags * conflict)) ≠ none)
    (earlier : ∀ page < conflict, vmm.Unmapped flags (vAddr + stride flags * page))
    (entered : (mapPages flags conflict vAddr pAddr vmm).1 = 0) :
    (vmm.vmmMap vAddr pAddr pages flags).1 = -EEXIST ∧
      ((∀ other, (vmm.vmmMap vAddr pAddr pages flags).2.mapping other = vmm.mapping other) ↔
        conflict = 0) := by
  have loop : vmm.vmmMap vAddr pAddr pages flags = mapPages flags pages vAddr pAddr vmm :=
    if_neg (Nat.ne_of_gt (Nat.zero_lt_of_lt inRange))
  obtain ⟨table, anchored, present⟩ := taken_anchored formed taken
  rw [loop]
  refine ⟨mapPages_refused pages vAddr pAddr conflict vmm inRange anchored present, ?_⟩
  cases conflict with
  | zero =>
    rw [Nat.mul_zero, Nat.add_zero] at taken
    obtain ⟨entry, held⟩ := Option.ne_none_iff_exists'.mp taken
    cases pages with
    | zero => exact absurd inRange (Nat.not_lt_zero _)
    | succ pages =>
      rw [mapPages_busy held]
      exact ⟨fun _ => rfl, fun _ _ => rfl⟩
  | succ conflict =>
    have unmapped := earlier 0 (Nat.succ_pos _)
    rw [Nat.mul_zero, Nat.add_zero] at unmapped
    have absent : ((vmm.walkTo (leafTable flags vAddr)).2.entry
        (vmm.walkTo (leafTable flags vAddr)).1 (leafIndex flags vAddr)).present = false := by
      by_contra found
      rw [Bool.not_eq_false] at found
      rw [mapPages_succ, if_pos found] at entered
      cases entered
    constructor
    · intro same
      cases pages with
      | zero => exact absurd inRange (Nat.not_lt_zero _)
      | succ pages =>
        have mapped := mapPages_first_stays pages pAddr formed unmapped absent
        exact absurd ((same vAddr).trans (unmapped.mapping formed)) mapped
    · intro impossible
      cases impossible

theorem emptyTables_mapped (vAddr pAddr flags : Nat) (notHuge : flagBit flags 4 = false)
    (vBound : vAddr + 4096 ≤ 2 ^ 64) (pBound : pAddr + 4096 ≤ 2 ^ 52) :
    MappedRange emptyTables (emptyTables.vmmMap vAddr pAddr 1 flags).2 vAddr pAddr 1 flags := by
  have few : (rangePaths vAddr 1).card ≤ 3 := by
    unfold rangePaths walkPaths
    rw [Finset.range_one, Finset.singleton_biUnion]
    exact Finset.card_le_three
  have supplied : emptyTables.Supplied (rangePaths vAddr 1) :=
    (Finset.card_filter_le _ _).trans (few.trans (by decide))
  have outcome := (mapPages_cases flags notHuge (rangePaths vAddr 1)
    (fun path member => rangePaths_short member) 1 vAddr pAddr emptyTables emptyTables_wellFormed
    supplied
    (fun offset inRange => Finset.subset_biUnion_of_mem (fun k => walkPaths (vAddr + 4096 * k))
      (Finset.mem_range.mpr inRange))
    (fun _ _ => rfl) vBound (by decide) pBound).2
  rcases outcome with ⟨_absent, _zero, mapped⟩ | ⟨⟨offset, _inRange, busy⟩, _refused⟩
  · exact mapped
  · exact absurd rfl busy

def onePageTables : Vmm := (emptyTables.vmmMap 0x2000 0x5000 1 1).2

theorem onePageTables_wellFormed : onePageTables.WellFormed :=
  (emptyTables_mapped 0x2000 0x5000 1 (by decide) (by decide) (by decide)).formed

theorem vmmMap_refused_unchanged_iff_onePageTables :
    (onePageTables.vmmMap 0x1000 0x6000 2 1).1 = -EEXIST ∧
    (¬ ∀ other, (onePageTables.vmmMap 0x1000 0x6000 2 1).2.mapping other =
      onePageTables.mapping other) ∧
    ∀ other, (onePageTables.vmmMap 0x2000 0x6000 2 1).2.mapping other =
      onePageTables.mapping other := by
  have taken : onePageTables.slot (leafSlot 1 0x2000) ≠ none := by decide +kernel
  have unmapped : onePageTables.slot (leafSlot 1 0x1000) = none := by decide +kernel
  have small : onePageTables.hugeAt 0x1000 = false := by decide +kernel
  have second := vmmMap_refused_unchanged_iff onePageTables onePageTables_wellFormed
    0x1000 0x6000 2 1 1 (by decide) taken
    (fun page first => by
      rw [Nat.lt_one_iff.mp first]
      exact ⟨unmapped, fun _ => small⟩)
    (by decide +kernel)
  have first := vmmMap_refused_unchanged_iff onePageTables onePageTables_wellFormed
    0x2000 0x6000 2 1 0 (by decide) taken (fun page none => absurd none (Nat.not_lt_zero _)) rfl
  exact ⟨second.1, fun same => absurd (second.2.mp same) (by decide), first.2.mpr rfl⟩

/-- A refused request for 0x1000 and 0x2000, of which 0x2000 is mapped, leaves 0x1000
mapped. -/
theorem vmmMap_refused_keeps_first_page :
    onePageTables.WellFormed ∧ (onePageTables.mapping 0x2000).isSome = true ∧
    (onePageTables.vmmMap 0x1000 0x6000 2 1).1 = -EEXIST ∧
    onePageTables.mapping 0x1000 = none ∧
    (onePageTables.vmmMap 0x1000 0x6000 2 1).2.mapping 0x1000 = some (2 ^ 12, requestedLeaf 6 1) :=
  ⟨onePageTables_wellFormed, by decide +kernel, by decide +kernel, by decide +kernel,
    by decide +kernel⟩

/-! ### 2 MiB pages -/

inductive MapReached (start : Vmm) : Vmm → Prop where
  | start : MapReached start start
  | map (vmm : Vmm) (vAddr pAddr pages flags : Nat) :
      MapReached start vmm → MapReached start (vmm.vmmMap vAddr pAddr pages flags).2
  | unmap (vmm : Vmm) (vAddr pages : Nat) :
      MapReached start vmm → MapReached start (vmm.vmmUnmap vAddr pages).2

theorem unmapPages_root (pages vAddr : Nat) (vmm : Vmm) :
    (unmapPages pages vAddr vmm).pml4 = vmm.pml4 := by
  induction pages generalizing vAddr vmm with
  | zero => rfl
  | succ pages ih =>
    have toPd := (walkTo_kept vmm (pdPath vAddr)).root
    simp only [unmapPages]
    split
    · exact (ih _ _).trans toPd
    · exact (ih _ _).trans ((walk_kept _ _ _).root.trans toPd)

/-- Frames are never given back, so the root table stays in a used frame. -/
theorem MapReached.rootSettled {start : Vmm} (reached : MapReached start vmm)
    (settled : start.pml4 ∉ freeFrames start.pmm) : vmm.pml4 ∉ freeFrames vmm.pmm := by
  induction reached with
  | start => exact settled
  | map vmm vAddr pAddr pages flags _reached ih =>
    unfold vmmMap
    split
    · exact ih
    · have kept := mapPages_kept flags pages vAddr pAddr vmm
      rw [kept.root]
      exact fun free => ih (kept.free free)
  | unmap vmm vAddr pages _reached ih =>
    unfold vmmUnmap
    split
    · exact ih
    · change (unmapPages pages vAddr vmm).pml4 ∉ freeFrames (unmapPages pages vAddr vmm).pmm
      rw [unmapPages_root]
      exact fun free => ih (unmapPages_free pages vAddr vmm free)

theorem store_present {other : Nat} {index position : Fin 512}
    (value : PageTableEntry) (absent : (vmm.entry table index).present = false)
    (present : (vmm.entry other position).present = true) :
    (vmm.storeEntry table index value).entry other position = vmm.entry other position := by
  rw [storeEntry_entry]
  apply if_neg
  intro both
  rw [both.1, both.2, absent] at present
  cases present

/-- After the walk to a directory and a store at an absent entry, the walk finds the
directory again.  Only the root must not be free: the tables need not be a tree. -/
theorem walkToPd_again {index : Fin 512}
    (settled : vmm.pml4 ∉ freeFrames vmm.pmm) (value : PageTableEntry)
    (absent : ((vmm.walkToPd vAddr).2.entry table index).present = false) :
    ((vmm.walkToPd vAddr).2.storeEntry table index value).walkToPd vAddr =
      ((vmm.walkToPd vAddr).1, (vmm.walkToPd vAddr).2.storeEntry table index value) := by
  have first := walk_kept vmm vmm.pml4 (pml4Index vAddr)
  have firstArrives := walk_arrives vmm vmm.pml4 (pml4Index vAddr)
  unfold walkToPd at absent ⊢
  generalize vmm.vmmWalkAndCrateNextTable vmm.pml4 (pml4Index vAddr) = pdpt at *
  have second := walk_kept pdpt.2 pdpt.1 (pdptIndex vAddr)
  have secondArrives := walk_arrives pdpt.2 pdpt.1 (pdptIndex vAddr)
  dsimp only at absent ⊢
  generalize pdpt.2.vmmWalkAndCrateNextTable pdpt.1 (pdptIndex vAddr) = pd at *
  have rootSame := second.entries vmm.pml4 (pml4Index vAddr)
    (fun free => settled (first.free free)) firstArrives.1
  have rootPresent : (pd.2.entry vmm.pml4 (pml4Index vAddr)).present = true := by
    rw [rootSame]
    exact firstArrives.1
  have root : (pd.2.storeEntry table index value).pml4 = vmm.pml4 := second.root.trans first.root
  have toPdpt : (pd.2.storeEntry table index value).vmmWalkAndCrateNextTable
      (pd.2.storeEntry table index value).pml4 (pml4Index vAddr) =
        (pdpt.1, pd.2.storeEntry table index value) := by
    unfold vmmWalkAndCrateNextTable
    rw [root, store_present value absent rootPresent, rootPresent, if_neg (by decide), rootSame,
      firstArrives.2]
  have toPd : (pd.2.storeEntry table index value).vmmWalkAndCrateNextTable pdpt.1
      (pdptIndex vAddr) = (pd.1, pd.2.storeEntry table index value) := by
    unfold vmmWalkAndCrateNextTable
    rw [store_present value absent secondArrives.1, secondArrives.1, if_neg (by decide),
      secondArrives.2]
  rw [toPdpt, toPd]

theorem vmmGetPhysicalFromVirtual_huge {pd : Nat}
    (toPd : vmm.walkToPd vAddr = (pd, vmm))
    (huge : (vmm.entry pd (pdIndex vAddr)).hugePage = true) :
    (vmm.vmmGetPhysicalFromVirtual vAddr).1 % 4096 = 0 := by
  unfold vmmGetPhysicalFromVirtual
  simp only [toPd, huge, if_true, Nat.shiftLeft_eq]
  unfold word
  omega

/-- The last page of a 2 MiB request that succeeded: no table was created after it was
entered, so it is read back, without an offset. -/
theorem mapPages_huge_last (huge : flagBit flags 4 = true)
    (pages vAddr pAddr other : Nat) (vmm : Vmm) (settled : vmm.pml4 ∉ freeFrames vmm.pmm)
    (done : (mapPages flags (pages + 1) vAddr pAddr vmm).1 = 0)
    (samePage : page other = page (vAddr + 0x200000 * pages)) :
    ((mapPages flags (pages + 1) vAddr pAddr vmm).2.vmmGetPhysicalFromVirtual other).1 % 4096 =
      0 := by
  have wide : stride flags = 0x200000 := if_pos huge
  have table : leafTable flags vAddr = pdPath vAddr := if_pos huge
  have index : leafIndex flags vAddr = pdIndex vAddr := if_pos huge
  induction pages generalizing vAddr pAddr vmm with
  | zero =>
    rw [mapPages_succ] at done ⊢
    rw [table, index, ← walkToPd_eq] at done ⊢
    by_cases present : ((vmm.walkToPd vAddr).2.entry (vmm.walkToPd vAddr).1
        (pdIndex vAddr)).present = true
    · rw [if_pos present] at done
      cases done
    rw [if_neg present]
    have absent := Bool.eq_false_iff.mpr present
    rw [Nat.mul_zero, Nat.add_zero] at samePage
    have samePath := ptPath_congr samePage
    injection samePath with sameIndex sameAbove
    injection sameAbove with samePdpt sameAbove
    injection sameAbove with samePml4 _
    have again := walkToPd_again settled (leafEntry flags ((vmm.walkToPd vAddr).2.entry
      (vmm.walkToPd vAddr).1 (pdIndex vAddr)) pAddr) absent
    have ended : ∀ vNext pNext next, mapPages flags 0 vNext pNext next = (0, next) :=
      fun _ _ _ => rfl
    rw [ended]
    apply vmmGetPhysicalFromVirtual_huge
    · rw [walkToPd_eq, pdPath, samePdpt, samePml4]
      exact again
    · rw [sameIndex, storeEntry_entry, if_pos ⟨rfl, rfl⟩]
      exact leafEntry_huge huge _ _
  | succ pages ih =>
    have kept : ∀ value, ((vmm.walkTo (leafTable flags vAddr)).2.entry
        (vmm.walkTo (leafTable flags vAddr)).1 (leafIndex flags vAddr)).present = false →
        Kept vmm ((vmm.walkTo (leafTable flags vAddr)).2.storeEntry
          (vmm.walkTo (leafTable flags vAddr)).1 (leafIndex flags vAddr) value) :=
      fun value absent => (walkTo_kept vmm _).trans (store_kept value absent)
    rw [mapPages_succ] at done ⊢
    split at done
    · cases done
    rename_i present
    rw [if_neg present]
    have keptHere := kept (leafEntry flags ((vmm.walkTo (leafTable flags vAddr)).2.entry
      (vmm.walkTo (leafTable flags vAddr)).1 (leafIndex flags vAddr)) pAddr)
      (Bool.eq_false_iff.mpr present)
    apply ih _ _ _ _ done
    · rw [wide, page_word, samePage]
      congr 1
      omega
    · exact if_pos huge
    · exact if_pos huge
    · rw [keptHere.root]
      exact fun free => settled (keptHere.free free)

/-- In no state that `vmm_map` and `vmm_unmap` lead to does a 2 MiB request that succeeds
give the translation asked for: its bytes translate to page starts.  A 4 KiB request inside
a 2 MiB page is refused without effect exactly when the word of the mapped memory that is
taken for the page's entry has its present bit set. -/
theorem vmmMap_huge_never_translates (start vmm : Vmm) (formed : start.WellFormed)
    (reached : MapReached start vmm) :
    (∀ vAddr pAddr pages flags, vAddr % 0x200000 = 0 → pAddr % 0x200000 = 0 → 1 ≤ pages →
      flagBit flags 4 = true → (vmm.vmmMap vAddr pAddr pages flags).1 = 0 →
      ¬ ∀ offset < pages * 0x200000,
        ((vmm.vmmMap vAddr pAddr pages flags).2.vmmGetPhysicalFromVirtual
          (word (vAddr + offset))).1 = word (pAddr + offset)) ∧
    (∀ vAddr pAddr flags entry, flagBit flags 4 = false →
      vmm.slot (ptPath vAddr) = some entry → entry.hugePage = true →
      (vmm.vmmMap vAddr pAddr 1 flags = (-EEXIST, vmm) ↔
        (vmm.entry entry.physicalAddress (ptIndex vAddr)).present = true)) := by
  have settled := reached.rootSettled formed.rootSettled
  constructor
  · intro vAddr pAddr pages flags vAligned pAligned positive huge done translates
    cases pages with
    | zero => exact absurd positive (Nat.not_succ_le_zero 0)
    | succ pages =>
      have loop : vmm.vmmMap vAddr pAddr (pages + 1) flags =
          mapPages flags (pages + 1) vAddr pAddr vmm := if_neg (Nat.succ_ne_zero pages)
      rw [loop] at done translates
      -- byte 1 of the last page
      have read := translates (0x200000 * pages + 1) (by omega)
      have samePage : page (word (vAddr + (0x200000 * pages + 1))) =
          page (vAddr + 0x200000 * pages) := by
        unfold page word
        omega
      have start := mapPages_huge_last huge pages vAddr pAddr _ vmm settled done samePage
      rw [read] at start
      unfold word at start
      omega
  · intro vAddr pAddr flags entry notHuge held isHuge
    have huge : vmm.hugeAt vAddr = true := by
      unfold hugeAt
      rw [held]
      exact isHuge
    obtain ⟨pd, atPd⟩ := pd_of_huge huge
    have isEntry : vmm.slot (ptPath vAddr) = _ := slot_cons atPd
    rw [held] at isEntry
    split at isEntry
    · rename_i present
      cases isEntry
      have toPt : vmm.walkToPt vAddr =
          ((vmm.entry pd (pdIndex vAddr)).physicalAddress, vmm) := by
        unfold walkToPt vmmWalkAndCrateNextTable
        rw [walkToPd_eq, walkTo_existing _ atPd, present, if_neg (by decide)]
      have loop : vmm.vmmMap vAddr pAddr 1 flags = mapPages flags 1 vAddr pAddr vmm :=
        if_neg (by decide)
      rw [loop]
      cases word : (vmm.entry (vmm.entry pd (pdIndex vAddr)).physicalAddress
          (ptIndex vAddr)).present with
      | true =>
        rw [mapPages_present notHuge (by rw [toPt]; exact word), toPt]
        exact ⟨fun _ => rfl, fun _ => rfl⟩
      | false =>
        rw [mapPages_absent notHuge (by rw [toPt]; exact word)]
        constructor
        · intro refused
          have zero : (0 : Int) = -EEXIST := congrArg Prod.fst refused
          exact absurd zero (by decide)
        · intro impossible
          cases impossible
    · cases isEntry

/-- Two 2 MiB pages from 0x200000 on, asked to map to 0x400000. -/
def hugeTables : Vmm := (emptyTables.vmmMap 0x200000 0x400000 2 0x11).2

theorem vmmMap_huge_never_translates_hugeTables :
    (¬ ∀ offset < 2 * 0x200000,
      (hugeTables.vmmGetPhysicalFromVirtual (word (0x200000 + offset))).1 =
        word (0x400000 + offset)) ∧
    hugeTables.vmmMap 0x201000 0x5000 1 1 ≠ (-EEXIST, hugeTables) := by
  have never := (vmmMap_huge_never_translates emptyTables emptyTables emptyTables_wellFormed
    MapReached.start).1 0x200000 0x400000 2 0x11 (by decide) (by decide) (by decide) (by decide)
    (by decide +kernel)
  have inside := (vmmMap_huge_never_translates emptyTables hugeTables emptyTables_wellFormed
    (MapReached.map emptyTables 0x200000 0x400000 2 0x11 MapReached.start)).2 0x201000 0x5000 1
    (hugeLeaf PageTableEntry.zero 0x400000 0x11) (by decide) (by decide +kernel) (by decide)
  have absent : (hugeTables.entry (hugeLeaf PageTableEntry.zero 0x400000 0x11).physicalAddress
      (ptIndex 0x201000)).present = false := by decide +kernel
  refine ⟨never, fun refused => ?_⟩
  rw [inside.mp refused] at absent
  cases absent

/-- Mapping 0x200000 over two 2 MiB pages to 0x400000 succeeds; byte 1 then translates to
0x400000, the second page translates to 0x400000 as well, and a 4 KiB request inside the
first page returns 0 and writes an entry into the frame at 0x400000. -/
theorem vmmMap_huge_translation_wrong :
    emptyTables.WellFormed ∧ (emptyTables.vmmMap 0x200000 0x400000 2 0x11).1 = 0 ∧
    (hugeTables.vmmGetPhysicalFromVirtual 0x200001).1 = 0x400000 ∧
    (hugeTables.vmmGetPhysicalFromVirtual 0x400000).1 = 0x400000 ∧
    (hugeTables.vmmMap 0x201000 0x5000 1 1).1 = 0 ∧
    (hugeTables.entry 0x400 1).present = false ∧
    ((hugeTables.vmmMap 0x201000 0x5000 1 1).2.entry 0x400 1).present = true :=
  ⟨emptyTables_wellFormed, by decide +kernel, by decide +kernel, by decide +kernel,
    by decide +kernel, by decide +kernel, by decide +kernel⟩

end Vmm
end Fesos
