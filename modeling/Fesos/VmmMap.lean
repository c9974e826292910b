/-
Mapping, unmapping and translating ranges of 4 KiB pages.

The page loops are followed page by page: a well-formed state with a free frame
for every table the range still lacks stays well-formed, and the leaves of the
state after a loop are the old leaves updated at the pages of the range.
-/

import Fesos.PmmOwnership
import Fesos.VmmTables

set_option autoImplicit false

namespace Fesos
namespace Vmm

/-! ### Pages of virtual addresses -/

/-- Bits 12..47 of a virtual address: the part the walk looks at. -/
def page (vAddr : Nat) : Nat := vAddr / 4096 % 2 ^ 36

def Canonical (vAddr : Nat) : Prop :=
  vAddr < 2 ^ 47 ∨ (2 ^ 64 - 2 ^ 47 ≤ vAddr ∧ vAddr < 2 ^ 64)

theorem tableIndex_val (vAddr level : Nat) :
    (tableIndex vAddr (12 + 9 * level)).val = vAddr / 4096 / 512 ^ level % 512 := by
  unfold tableIndex
  rw [Fin.val_ofNat, Nat.shiftRight_eq_div_pow, Nat.div_div_eq_div_mul, Nat.pow_add, Nat.pow_mul]

theorem page_eq_iff (left right : Nat) :
    page left = page right ↔ ptPath left = ptPath right ∧ ptIndex left = ptIndex right := by
  unfold ptPath
  simp only [List.cons.injEq, and_true, Fin.ext_iff, ptIndex, pdIndex, pdptIndex, pml4Index]
  have l1 := tableIndex_val left 0
  have l2 := tableIndex_val left 1
  have l3 := tableIndex_val left 2
  have l4 := tableIndex_val left 3
  have r1 := tableIndex_val right 0
  have r2 := tableIndex_val right 1
  have r3 := tableIndex_val right 2
  have r4 := tableIndex_val right 3
  norm_num at l1 l2 l3 l4 r1 r2 r3 r4
  rw [l1, l2, l3, l4, r1, r2, r3, r4]
  unfold page
  constructor
  · intro same
    omega
  · intro same
    omega

variable {flags left pAddr pages right vAddr : Nat}

theorem page_injective (leftCanonical : Canonical left)
    (rightCanonical : Canonical right) (same : page left = page right) :
    left / 4096 = right / 4096 := by
  unfold page at same
  rcases leftCanonical with lower | ⟨lower, upper⟩ <;>
    rcases rightCanonical with lower' | ⟨lower', upper'⟩ <;> omega

theorem leaf_congr (vmm : Vmm) (same : page left = page right) :
    vmm.leaf left = vmm.leaf right := by
  obtain ⟨samePath, sameIndex⟩ := (page_eq_iff left right).mp same
  unfold leaf
  rw [samePath, sameIndex]

theorem hugeAt_congr (vmm : Vmm) (same : page left = page right) :
    vmm.hugeAt left = vmm.hugeAt right := by
  unfold hugeAt
  rw [((page_eq_iff left right).mp same).1]

/-! ### The walk to the page table of an address -/

def walkPaths (vAddr : Nat) : Finset (List (Fin 512)) := tablesOf (ptPath vAddr)

def rangePaths (vAddr pages : Nat) : Finset (List (Fin 512)) :=
  (Finset.range pages).biUnion (fun offset => walkPaths (vAddr + 4096 * offset))

theorem rangePaths_short {path : List (Fin 512)}
    (member : path ∈ rangePaths vAddr pages) : path.length ≤ 3 := by
  obtain ⟨offset, _inRange, inWalk⟩ := Finset.mem_biUnion.mp member
  exact tablesOf_short inWalk

theorem walkPaths_congr (same : page left = page right) :
    walkPaths left = walkPaths right := by
  unfold walkPaths
  rw [((page_eq_iff left right).mp same).1]

def pdPath (vAddr : Nat) : List (Fin 512) := [pdptIndex vAddr, pml4Index vAddr]

theorem walkToPd_eq (vmm : Vmm) (vAddr : Nat) : vmm.walkToPd vAddr = vmm.walkTo (pdPath vAddr) :=
  rfl

def walkToPt (vmm : Vmm) (vAddr : Nat) : Nat × Vmm :=
  (vmm.walkToPd vAddr).2.vmmWalkAndCrateNextTable (vmm.walkToPd vAddr).1 (pdIndex vAddr)

variable {before vmm : Vmm}

theorem hugePage_at_pd {pd : Nat} (walked : Walked before vmm 2)
    (atPd : vmm.tableAt (pdPath vAddr) = some pd) :
    (vmm.entry pd (pdIndex vAddr)).hugePage = before.hugeAt vAddr := by
  have held : vmm.slot (ptPath vAddr) = if (vmm.entry pd (pdIndex vAddr)).present then
      some (vmm.entry pd (pdIndex vAddr)) else none := slot_cons atPd
  rw [← walked.sameHuge vAddr]
  unfold hugeAt
  rw [held]
  cases presence : (vmm.entry pd (pdIndex vAddr)).present with
  | true => rfl
  | false =>
    rw [walked.formed.absentZero _ _ _ (by simp [pdPath]) atPd presence]
    rfl

section Walk

variable {vmm : Vmm} {paths : Finset (List (Fin 512))} {vAddr : Nat}

section

variable (formed : vmm.WellFormed) (supplied : vmm.Supplied paths)
  (pathsShort : ∀ path ∈ paths, path.length ≤ 3) (covered : walkPaths vAddr ⊆ paths)

include formed supplied pathsShort covered

theorem walkToPd_hugePage :
    ((vmm.walkToPd vAddr).2.entry (vmm.walkToPd vAddr).1 (pdIndex vAddr)).hugePage =
      vmm.hugeAt vAddr := by
  obtain ⟨walked, _still, atPd⟩ := walkTo_reaches (pdPath vAddr) (by simp [pdPath]) formed
    (fun entry held => slot_high formed.shaped (by simp [pdPath]) held) pathsShort
    (fun other above => covered (Finset.mem_insert_of_mem above)) supplied
  exact hugePage_at_pd walked atPd

theorem walkToPt_reaches
    (small : vmm.hugeAt vAddr = false) :
    Walked vmm (vmm.walkToPt vAddr).2 3 ∧ (vmm.walkToPt vAddr).2.Supplied paths ∧
      (vmm.walkToPt vAddr).2.tableAt (ptPath vAddr) = some (vmm.walkToPt vAddr).1 :=
  walkTo_reaches (ptPath vAddr) (by simp [ptPath]) formed
    (fun entry held => slot_of_not_huge small held) pathsShort covered supplied

end

variable {pt : Nat} {before : Vmm}

theorem leaf_at_pt (walked : Walked before vmm 3)
    (atPt : vmm.tableAt (ptPath vAddr) = some pt) :
    before.leaf vAddr = if (vmm.entry pt (ptIndex vAddr)).present then
      some (vmm.entry pt (ptIndex vAddr)) else none := by
  rw [← walked.sameLeaf vAddr]
  exact slot_cons atPt

section StoreLeaf

variable {pt : Nat} (shaped : vmm.Shaped) (atPt : vmm.tableAt (ptPath vAddr) = some pt)
  (value : PageTableEntry)

include shaped atPt

theorem storeLeaf_leaf (other : Nat) :
    (vmm.storeEntry pt (ptIndex vAddr) value).leaf other =
      if page other = page vAddr then (if value.present then some value else none)
      else vmm.leaf other := by
  have terminal : vmm.Terminal (ptPath vAddr) pt (ptIndex vAddr) value := Or.inl rfl
  unfold leaf
  rw [storeSlot_slot shaped (by simp [ptPath]) atPt terminal _ (by simp [ptPath])]
  by_cases same : page other = page vAddr
  · have sameSlot := (page_eq_iff other vAddr).mp same
    rw [if_pos same, if_pos (by rw [sameSlot.1, sameSlot.2])]
  have apart : ptIndex other :: ptPath other ≠ ptIndex vAddr :: ptPath vAddr := by
    intro sameSlot
    injection sameSlot with sameIndex samePath
    exact same ((page_eq_iff other vAddr).mpr ⟨samePath, sameIndex⟩)
  rw [if_neg same, if_neg apart]

theorem storeLeaf_hugeAt (other : Nat) :
    (vmm.storeEntry pt (ptIndex vAddr) value).hugeAt other = vmm.hugeAt other := by
  have terminal : vmm.Terminal (ptPath vAddr) pt (ptIndex vAddr) value := Or.inl rfl
  have shorter : ptPath other ≠ ptIndex vAddr :: ptPath vAddr := by
    intro same
    have lengths := congrArg List.length same
    simp [ptPath] at lengths
  unfold hugeAt
  rw [storeSlot_slot shaped (by simp [ptPath]) atPt terminal _ (by simp [ptPath]),
    if_neg shorter]

end StoreLeaf

/-- Storing at the end of the walk changes the leaf of that page only. -/
structure PageStored (before after : Vmm) (vAddr : Nat) (value : PageTableEntry) : Prop where
  formed : after.WellFormed
  leaves : ∀ other, after.leaf other =
    if page other = page vAddr then (if value.present then some value else none)
    else before.leaf other
  sameHuge : ∀ other, after.hugeAt other = before.hugeAt other

theorem store_at_pt (walked : Walked before vmm 3)
    (atPt : vmm.tableAt (ptPath vAddr) = some pt) (value : PageTableEntry)
    (clean : value.present = true ∨ value = PageTableEntry.zero) :
    PageStored before (vmm.storeEntry pt (ptIndex vAddr) value) vAddr value where
  formed := storeSlot_wellFormed walked.formed (by simp [ptPath]) (by simp [ptPath]) atPt
    (Or.inl rfl) clean
  leaves := by
    intro other
    rw [storeLeaf_leaf walked.formed.shaped atPt value other, walked.sameLeaf other]
  sameHuge := by
    intro other
    rw [storeLeaf_hugeAt walked.formed.shaped atPt value other, walked.sameHuge other]

theorem store_at_pt_supplied (walked : Walked before vmm 3)
    (atPt : vmm.tableAt (ptPath vAddr) = some pt) (value : PageTableEntry)
    (pathsShort : ∀ path ∈ paths, path.length ≤ 3) (supplied : vmm.Supplied paths) :
    (vmm.storeEntry pt (ptIndex vAddr) value).Supplied paths := by
  unfold Supplied at supplied ⊢
  rw [storeSlot_missing walked.formed (by simp [ptPath]) atPt (Or.inl rfl) pathsShort,
    storeEntry_freeFrames]
  exact supplied

end Walk

/-! ### Mapping a range -/

def requestedLeaf (frame flags : Nat) : PageTableEntry :=
  { present := true
    writeable := flagBit flags 0
    userAvailable := flagBit flags 1
    writeThrough := flagBit flags 2
    disableCaching := flagBit flags 3
    accessed := false
    dirty := false
    hugePage := false
    global := flagBit flags 5
    availableLow := 0
    physicalAddress := frame
    availableHigh := 0
    executeDisable := flagBit flags 6 }

theorem smallLeaf_zero (pAddr flags : Nat) (bound : pAddr < 2 ^ 52) :
    smallLeaf PageTableEntry.zero pAddr flags = requestedLeaf (pAddr / 4096) flags := by
  have shifted : pAddr >>> 12 = pAddr / 4096 := Nat.shiftRight_eq_div_pow pAddr 12
  have field : physicalField (pAddr / 4096) = pAddr / 4096 := Nat.mod_eq_of_lt (by omega)
  unfold smallLeaf requestedLeaf
  rw [shifted, field]
  rfl

/-- The page loops add 0x1000 to the address; within the range this does not wrap. -/
theorem advance_address {offset : Nat} (inRange : offset < pages)
    (bound : vAddr + 4096 * (pages + 1) ≤ 2 ^ 64) :
    word (vAddr + 0x1000) + 4096 * offset = vAddr + 4096 * (offset + 1) := by
  rw [word_of_lt (by omega)]
  omega

/-- Mapping a range of absent pages: the leaves are the old ones with the
requested entry at each page of the range. -/
structure MappedRange (before after : Vmm) (vAddr pAddr pages flags : Nat) : Prop where
  formed : after.WellFormed
  onRange : ∀ offset < pages,
    after.leaf (vAddr + 4096 * offset) = some (requestedLeaf (pAddr / 4096 + offset) flags)
  offRange : ∀ other, (∀ offset < pages, page other ≠ page (vAddr + 4096 * offset)) →
    after.leaf other = before.leaf other
  sameHuge : ∀ other, after.hugeAt other = before.hugeAt other

theorem mapPages_present
    (notHuge : flagBit flags 4 = false)
    (busy : ((vmm.walkToPt vAddr).2.entry (vmm.walkToPt vAddr).1 (ptIndex vAddr)).present = true) :
    mapPages flags (pages + 1) vAddr pAddr vmm = (-EEXIST, (vmm.walkToPt vAddr).2) := by
  unfold walkToPt at busy ⊢
  simp [mapPages, notHuge, busy]

theorem mapPages_absent
    (notHuge : flagBit flags 4 = false)
    (free : ((vmm.walkToPt vAddr).2.entry (vmm.walkToPt vAddr).1 (ptIndex vAddr)).present = false) :
    mapPages flags (pages + 1) vAddr pAddr vmm =
      mapPages flags pages (word (vAddr + 0x1000)) (word (pAddr + 0x1000))
        ((vmm.walkToPt vAddr).2.storeEntry (vmm.walkToPt vAddr).1 (ptIndex vAddr)
          (smallLeaf ((vmm.walkToPt vAddr).2.entry (vmm.walkToPt vAddr).1 (ptIndex vAddr))
            pAddr flags)) := by
  unfold walkToPt at free ⊢
  simp [mapPages, notHuge, free]

/-- The first page of a range was mapped and the loop has mapped the others. -/
theorem MappedRange.cons {middle after : Vmm}
    (vBound : vAddr + 4096 * (pages + 1) ≤ 2 ^ 64)
    (few : pages + 1 ≤ 2 ^ 36)
    (first : PageStored before middle vAddr (requestedLeaf (pAddr / 4096) flags))
    (rest : MappedRange middle after (word (vAddr + 0x1000)) (pAddr + 0x1000) pages flags) :
    MappedRange before after vAddr pAddr (pages + 1) flags := by
  refine ⟨rest.formed, ?_, ?_, fun other => (rest.sameHuge other).trans (first.sameHuge other)⟩
  · intro offset inRange
    cases offset with
    | zero =>
      simp only [Nat.mul_zero, Nat.add_zero]
      rw [rest.offRange vAddr, first.leaves, if_pos rfl]
      · rfl
      · intro later inLater same
        rw [advance_address inLater vBound] at same
        unfold page at same
        omega
    | succ offset =>
      have nextFrame : (pAddr + 0x1000) / 4096 + offset = pAddr / 4096 + (offset + 1) := by
        omega
      rw [← advance_address (by omega : offset < pages) vBound, rest.onRange offset (by omega),
        nextFrame]
  · intro other outside
    have notFirst : page other ≠ page vAddr := by
      simpa using outside 0 (by omega)
    rw [rest.offRange other, first.leaves, if_neg notFirst]
    intro offset inRange
    rw [advance_address inRange vBound]
    exact outside (offset + 1) (by omega)

/-- The page loop: either every page of the range was absent and is mapped now, or
one was present and the call is refused. -/
theorem mapPages_cases (flags : Nat) (notHuge : flagBit flags 4 = false)
    (paths : Finset (List (Fin 512))) (pathsShort : ∀ path ∈ paths, path.length ≤ 3)
    (pages vAddr pAddr : Nat) (vmm : Vmm) (formed : vmm.WellFormed)
    (supplied : vmm.Supplied paths)
    (covered : ∀ offset < pages, walkPaths (vAddr + 4096 * offset) ⊆ paths)
    (small : ∀ offset < pages, vmm.hugeAt (vAddr + 4096 * offset) = false)
    (vBound : vAddr + 4096 * pages ≤ 2 ^ 64) (few : pages ≤ 2 ^ 36)
    (pBound : pAddr + 4096 * pages ≤ 2 ^ 52) :
    (mapPages flags pages vAddr pAddr vmm).2.Supplied paths ∧
    (((∀ offset < pages, vmm.leaf (vAddr + 4096 * offset) = none) ∧
        (mapPages flags pages vAddr pAddr vmm).1 = 0 ∧
        MappedRange vmm (mapPages flags pages vAddr pAddr vmm).2 vAddr pAddr pages flags) ∨
      ((∃ offset < pages, vmm.leaf (vAddr + 4096 * offset) ≠ none) ∧
        (mapPages flags pages vAddr pAddr vmm).1 = -EEXIST)) := by
  induction pages generalizing vAddr pAddr vmm with
  | zero =>
    exact ⟨supplied, Or.inl ⟨by simp, rfl, formed, by simp, fun _ _ => rfl, fun _ => rfl⟩⟩
  | succ pages ih =>
    have coveredHere : walkPaths vAddr ⊆ paths := by simpa using covered 0 (by omega)
    have smallHere : vmm.hugeAt vAddr = false := by simpa using small 0 (by omega)
    obtain ⟨walked, still, atPt⟩ :=
      walkToPt_reaches formed supplied pathsShort coveredHere smallHere
    have leafHere := leaf_at_pt walked atPt
    cases presence : ((vmm.walkToPt vAddr).2.entry (vmm.walkToPt vAddr).1
        (ptIndex vAddr)).present with
    | true =>
      rw [mapPages_present notHuge presence]
      refine ⟨still, Or.inr ⟨⟨0, by omega, ?_⟩, rfl⟩⟩
      rw [Nat.mul_zero, Nat.add_zero, leafHere, presence]
      simp
    | false =>
      have oldZero := walked.formed.absentZero _ _ (ptIndex vAddr) (by simp [ptPath]) atPt
        presence
      have first := store_at_pt walked atPt (requestedLeaf (pAddr / 4096) flags) (Or.inl rfl)
      have fed := store_at_pt_supplied walked atPt (requestedLeaf (pAddr / 4096) flags)
        pathsShort still
      have pNext : word (pAddr + 0x1000) = pAddr + 0x1000 := word_of_lt (by omega)
      have vNext : word (vAddr + 0x1000) ≤ vAddr + 0x1000 := Nat.mod_le _ _
      rw [mapPages_absent notHuge presence, oldZero, smallLeaf_zero pAddr flags (by omega), pNext]
      generalize (vmm.walkToPt vAddr).2.storeEntry (vmm.walkToPt vAddr).1 (ptIndex vAddr)
        (requestedLeaf (pAddr / 4096) flags) = next at first fed ⊢
      have unchanged : ∀ offset < pages,
          next.leaf (word (vAddr + 0x1000) + 4096 * offset) =
            vmm.leaf (vAddr + 4096 * (offset + 1)) := by
        intro offset inRange
        have later : page (vAddr + 4096 * (offset + 1)) ≠ page vAddr := by
          unfold page
          omega
        rw [advance_address inRange vBound, first.leaves, if_neg later]
      obtain ⟨restSupplied, outcome⟩ := ih (word (vAddr + 0x1000)) (pAddr + 0x1000) next
        first.formed fed
        (by
          intro offset inRange
          rw [advance_address inRange vBound]
          exact covered (offset + 1) (by omega))
        (by
          intro offset inRange
          rw [advance_address inRange vBound, first.sameHuge]
          exact small (offset + 1) (by omega))
        (by omega) (by omega) (by omega)
      refine ⟨restSupplied, ?_⟩
      rcases outcome with ⟨absent, zero, mapped⟩ | ⟨⟨offset, inRange, busy⟩, refused⟩
      · refine Or.inl ⟨?_, zero, mapped.cons vBound few first⟩
        intro offset inRange
        cases offset with
        | zero =>
          rw [Nat.mul_zero, Nat.add_zero, leafHere, presence]
          rfl
        | succ offset =>
          rw [← unchanged offset (by omega)]
          exact absent offset (by omega)
      · refine Or.inr ⟨⟨offset + 1, by omega, ?_⟩, refused⟩
        rw [← unchanged offset inRange]
        exact busy

/-! ### Unmapping a range -/

theorem unmapPages_small
    (small : ((vmm.walkToPd vAddr).2.entry (vmm.walkToPd vAddr).1
      (pdIndex vAddr)).hugePage = false) :
    unmapPages (pages + 1) vAddr vmm =
      unmapPages pages (word (vAddr + 0x1000))
        ((vmm.walkToPt vAddr).2.storeEntry (vmm.walkToPt vAddr).1 (ptIndex vAddr)
          PageTableEntry.zero) := by
  unfold walkToPt
  simp [unmapPages, small]

/-! ### Ranges that may wrap -/

theorem page_word (vAddr offset : Nat) : page (word vAddr + offset) = page (vAddr + offset) := by
  unfold page word
  omega

theorem page_later (vAddr offset : Nat) :
    page (word (vAddr + 0x1000) + 4096 * offset) = page (vAddr + 4096 * (offset + 1)) := by
  rw [page_word, Nat.mul_succ, Nat.add_comm (4096 * offset), Nat.add_assoc]

/-- The tables are in order, and the pages outside the range are as before. -/
structure Confined (before after : Vmm) (paths : Finset (List (Fin 512))) (vAddr pages : Nat) :
    Prop where
  formed : after.WellFormed
  supplied : after.Supplied paths
  sameHuge : ∀ other, after.hugeAt other = before.hugeAt other
  offRange : ∀ other, (∀ offset < pages, page other ≠ page (vAddr + 4096 * offset)) →
    after.leaf other = before.leaf other

theorem range_succ {other : Nat} :
    (∀ offset < pages + 1, page other ≠ page (vAddr + 4096 * offset)) ↔
      page other ≠ page vAddr ∧
        ∀ offset < pages, page other ≠ page (word (vAddr + 0x1000) + 4096 * offset) := by
  constructor
  · intro outside
    constructor
    · exact outside 0 (Nat.succ_pos pages)
    · intro offset inRange
      rw [page_later]
      exact outside (offset + 1) (Nat.succ_lt_succ inRange)
  · rintro ⟨notFirst, notLater⟩ offset inRange
    cases offset with
    | zero => exact notFirst
    | succ offset =>
      rw [← page_later]
      exact notLater offset (Nat.lt_of_succ_lt_succ inRange)

theorem Confined.cons {next after : Vmm} {paths : Finset (List (Fin 512))} {value : PageTableEntry} (first : PageStored before next vAddr value)
    (rest : Confined next after paths (word (vAddr + 0x1000)) pages) :
    Confined before after paths vAddr (pages + 1) where
  formed := rest.formed
  supplied := rest.supplied
  sameHuge := fun other => (rest.sameHuge other).trans (first.sameHuge other)
  offRange := by
    intro other outside
    obtain ⟨notFirst, notLater⟩ := range_succ.mp outside
    rw [rest.offRange other notLater, first.leaves, if_neg notFirst]

section Loops

variable {paths : Finset (List (Fin 512))}

structure Ranged (vmm : Vmm) (paths : Finset (List (Fin 512))) (vAddr pages : Nat) : Prop where
  formed : vmm.WellFormed
  supplied : vmm.Supplied paths
  covered : ∀ offset < pages, walkPaths (vAddr + 4096 * offset) ⊆ paths
  small : ∀ offset < pages, vmm.hugeAt (vAddr + 4096 * offset) = false

variable {flags pages vAddr : Nat} {vmm : Vmm}

theorem Ranged.later {next : Vmm} {value : PageTableEntry}
    (ranged : vmm.Ranged paths vAddr (pages + 1)) (first : PageStored vmm next vAddr value)
    (fed : next.Supplied paths) : next.Ranged paths (word (vAddr + 0x1000)) pages where
  formed := first.formed
  supplied := fed
  covered := by
    intro offset inRange
    rw [walkPaths_congr (page_later vAddr offset)]
    exact ranged.covered (offset + 1) (Nat.succ_lt_succ inRange)
  small := by
    intro offset inRange
    rw [hugeAt_congr _ (page_later vAddr offset), first.sameHuge]
    exact ranged.small (offset + 1) (Nat.succ_lt_succ inRange)

theorem Ranged.reaches
    (pathsShort : ∀ path ∈ paths, path.length ≤ 3) (ranged : vmm.Ranged paths vAddr (pages + 1)) :
    Walked vmm (vmm.walkToPt vAddr).2 3 ∧ (vmm.walkToPt vAddr).2.Supplied paths ∧
      (vmm.walkToPt vAddr).2.tableAt (ptPath vAddr) = some (vmm.walkToPt vAddr).1 :=
  walkToPt_reaches ranged.formed ranged.supplied pathsShort (ranged.covered 0 (Nat.succ_pos pages))
    (ranged.small 0 (Nat.succ_pos pages))

theorem mapPages_confined (notHuge : flagBit flags 4 = false)
    (pathsShort : ∀ path ∈ paths, path.length ≤ 3) (pages vAddr pAddr : Nat) (vmm : Vmm)
    (ranged : vmm.Ranged paths vAddr pages) :
    Confined vmm (mapPages flags pages vAddr pAddr vmm).2 paths vAddr pages := by
  induction pages generalizing vAddr pAddr vmm with
  | zero => exact ⟨ranged.formed, ranged.supplied, fun _ => rfl, fun _ _ => rfl⟩
  | succ pages ih =>
    obtain ⟨walked, still, atPt⟩ := ranged.reaches pathsShort
    cases presence : ((vmm.walkToPt vAddr).2.entry (vmm.walkToPt vAddr).1
        (ptIndex vAddr)).present with
    | true =>
      rw [mapPages_present notHuge presence]
      exact ⟨walked.formed, still, walked.sameHuge, fun other _ => walked.sameLeaf other⟩
    | false =>
      rw [mapPages_absent notHuge presence]
      have first := store_at_pt walked atPt (smallLeaf ((vmm.walkToPt vAddr).2.entry
        (vmm.walkToPt vAddr).1 (ptIndex vAddr)) pAddr flags) (Or.inl rfl)
      have fed := store_at_pt_supplied walked atPt (smallLeaf ((vmm.walkToPt vAddr).2.entry
        (vmm.walkToPt vAddr).1 (ptIndex vAddr)) pAddr flags) pathsShort still
      exact (ih _ _ _ (ranged.later first fed)).cons first

theorem unmapPages_confined (pathsShort : ∀ path ∈ paths, path.length ≤ 3) (pages vAddr : Nat)
    (vmm : Vmm) (ranged : vmm.Ranged paths vAddr pages) :
    Confined vmm (unmapPages pages vAddr vmm) paths vAddr pages ∧
      ∀ offset < pages, (unmapPages pages vAddr vmm).leaf (vAddr + 4096 * offset) = none := by
  induction pages generalizing vAddr vmm with
  | zero =>
    exact ⟨⟨ranged.formed, ranged.supplied, fun _ => rfl, fun _ _ => rfl⟩,
      fun _ inRange => absurd inRange (Nat.not_lt_zero _)⟩
  | succ pages ih =>
    obtain ⟨walked, still, atPt⟩ := ranged.reaches pathsShort
    have smallEntry : ((vmm.walkToPd vAddr).2.entry (vmm.walkToPd vAddr).1
        (pdIndex vAddr)).hugePage = false :=
      (walkToPd_hugePage ranged.formed ranged.supplied pathsShort
        (ranged.covered 0 (Nat.succ_pos pages))).trans (ranged.small 0 (Nat.succ_pos pages))
    have first := store_at_pt walked atPt PageTableEntry.zero (Or.inr rfl)
    have fed := store_at_pt_supplied walked atPt PageTableEntry.zero pathsShort still
    rw [unmapPages_small smallEntry]
    obtain ⟨rest, cleared⟩ := ih _ _ (ranged.later first fed)
    refine ⟨rest.cons first, ?_⟩
    intro offset inRange
    cases offset with
    | succ offset =>
      rw [← leaf_congr _ (page_later vAddr offset)]
      exact cleared offset (Nat.lt_of_succ_lt_succ inRange)
    | zero =>
      -- a range that wraps may come back to its first page
      have here : vAddr + 4096 * 0 = vAddr := rfl
      rw [here]
      by_cases again : ∃ later < pages,
          page vAddr = page (word (vAddr + 0x1000) + 4096 * later)
      · obtain ⟨later, inLater, same⟩ := again
        rw [leaf_congr _ same]
        exact cleared later inLater
      · rw [rest.offRange vAddr (fun later inLater same => again ⟨later, inLater, same⟩),
          first.leaves, if_pos rfl]
        rfl

section

variable (notHuge : flagBit flags 4 = false) (pathsShort : ∀ path ∈ paths, path.length ≤ 3)

include notHuge pathsShort

/-- After mapping and unmapping a range none of its pages is present, and the others are as
before. -/
theorem remapped_leaf (pages vAddr pAddr : Nat) (vmm : Vmm)
    (ranged : vmm.Ranged paths vAddr pages) :
    Confined vmm (unmapPages pages vAddr (mapPages flags pages vAddr pAddr vmm).2) paths vAddr
        pages ∧
      ∀ offset < pages, (unmapPages pages vAddr (mapPages flags pages vAddr pAddr vmm).2).leaf
        (vAddr + 4096 * offset) = none := by
  have mapped := mapPages_confined notHuge pathsShort pages vAddr pAddr vmm ranged
  have again : (mapPages flags pages vAddr pAddr vmm).2.Ranged paths vAddr pages := by
    refine ⟨mapped.formed, mapped.supplied, ranged.covered, ?_⟩
    intro offset inRange
    rw [mapped.sameHuge]
    exact ranged.small offset inRange
  obtain ⟨unmapped, cleared⟩ := unmapPages_confined pathsShort pages vAddr _ again
  refine ⟨⟨unmapped.formed, unmapped.supplied, ?_, ?_⟩, cleared⟩
  · intro other
    rw [unmapped.sameHuge, mapped.sameHuge]
  · intro other outside
    rw [unmapped.offRange other outside, mapped.offRange other outside]

/-- Mapping and unmapping a range leaves every translation as it was exactly when no page of
the range was present. -/
theorem vmmUnmap_vmmMap_iff (pAddr : Nat)
    (ranged : vmm.Ranged paths vAddr pages) :
    (∀ other, ((vmm.vmmMap vAddr pAddr pages flags).2.vmmUnmap vAddr pages).2.leaf other =
        vmm.leaf other) ↔
      ∀ offset < pages, vmm.leaf (vAddr + 4096 * offset) = none := by
  unfold vmmMap vmmUnmap
  by_cases empty : pages = 0
  · rw [if_pos empty, if_pos empty]
    constructor
    · intro _ offset inRange
      rw [empty] at inRange
      exact absurd inRange (Nat.not_lt_zero _)
    · exact fun _ _ => rfl
  · rw [if_neg empty, if_neg empty]
    obtain ⟨confined, cleared⟩ := remapped_leaf notHuge pathsShort pages vAddr pAddr vmm ranged
    constructor
    · intro same offset inRange
      rw [← same]
      exact cleared offset inRange
    · intro absent other
      by_cases inside : ∃ offset < pages, page other = page (vAddr + 4096 * offset)
      · obtain ⟨offset, inRange, same⟩ := inside
        rw [leaf_congr _ same]
        exact (cleared offset inRange).trans ((leaf_congr vmm same).trans
          (absent offset inRange)).symm
      · exact confined.offRange other (fun offset inRange same => inside ⟨offset, inRange, same⟩)

/-- What the mapping changed is absent after the unmapping, and huge pages stay. -/
theorem vmmUnmap_vmmMap_clears (pAddr : Nat)
    (ranged : vmm.Ranged paths vAddr pages) (other : Nat) :
    ((vmm.vmmMap vAddr pAddr pages flags).2.leaf other ≠ vmm.leaf other →
      ((vmm.vmmMap vAddr pAddr pages flags).2.vmmUnmap vAddr pages).2.leaf other = none) ∧
    ((vmm.vmmMap vAddr pAddr pages flags).2.vmmUnmap vAddr pages).2.hugeAt other =
      vmm.hugeAt other := by
  unfold vmmMap vmmUnmap
  by_cases empty : pages = 0
  · rw [if_pos empty, if_pos empty]
    exact ⟨fun changed => absurd rfl changed, rfl⟩
  rw [if_neg empty, if_neg empty]
  have mapped := mapPages_confined notHuge pathsShort pages vAddr pAddr vmm ranged
  obtain ⟨confined, cleared⟩ := remapped_leaf notHuge pathsShort pages vAddr pAddr vmm ranged
  refine ⟨?_, confined.sameHuge other⟩
  intro changed
  by_cases inside : ∃ offset < pages, page other = page (vAddr + 4096 * offset)
  · obtain ⟨offset, inRange, same⟩ := inside
    rw [leaf_congr _ same]
    exact cleared offset inRange
  · exact absurd (mapped.offRange other (fun offset inRange same => inside ⟨offset, inRange, same⟩))
      changed

end

end Loops

/-! ### Translating an address -/

/-- A present leaf has a table above it. -/
theorem leaf_table {entry : PageTableEntry}
    (mapped : vmm.leaf vAddr = some entry) :
    ∃ pd pt, vmm.tableAt (pdPath vAddr) = some pd ∧
      (vmm.entry pd (pdIndex vAddr)).hugePage = false ∧
      vmm.tableAt (ptPath vAddr) = some pt ∧ vmm.entry pt (ptIndex vAddr) = entry := by
  cases atPt : vmm.tableAt (ptPath vAddr) with
  | none =>
    unfold leaf at mapped
    rw [slot_below_none atPt] at mapped
    cases mapped
  | some pt =>
    unfold leaf at mapped
    rw [slot_cons atPt] at mapped
    cases atPd : vmm.tableAt (pdPath vAddr) with
    | none =>
      have missing : vmm.tableAt (ptPath vAddr) = none := tableAt_below_none atPd
      rw [atPt] at missing
      cases missing
    | some pd =>
      have leads : vmm.tableAt (ptPath vAddr) = _ := tableAt_cons atPd
      rw [atPt] at leads
      split at leads
      · rename_i isTable
        have small := (Bool.and_eq_true_iff.mp isTable).2
        split at mapped
        · cases mapped
          exact ⟨pd, pt, rfl, by simpa using small, rfl, rfl⟩
        · cases mapped
      · cases leads

theorem vmmGetPhysicalFromVirtual_mapped {entry : PageTableEntry}
    (mapped : vmm.leaf vAddr = some entry) :
    vmm.vmmGetPhysicalFromVirtual vAddr =
      (word (entry.physicalAddress * 4096 + vAddr % 4096), vmm) := by
  obtain ⟨pd, pt, atPd, small, atPt, isLeaf⟩ := leaf_table mapped
  have toPd : vmm.walkToPd vAddr = (pd, vmm) := walkTo_existing _ atPd
  have toPt : vmm.walkToPt vAddr = (pt, vmm) := walkTo_existing _ atPt
  unfold walkToPt at toPt
  rw [toPd] at toPt
  have shifted : entry.physicalAddress <<< 12 = entry.physicalAddress * 4096 :=
    Nat.shiftLeft_eq _ _
  unfold vmmGetPhysicalFromVirtual
  simp only [toPd, small, toPt, isLeaf, shifted, Bool.false_eq_true, if_false]

/-! ### Map, translate and unmap -/

section MappedRange

variable {before after : Vmm} {vAddr pAddr pages flags : Nat}

theorem MappedRange.translates (mapped : MappedRange before after vAddr pAddr pages flags)
    (vAligned : vAddr % 4096 = 0) (pAligned : pAddr % 4096 = 0)
    (pBound : pAddr + 4096 * pages ≤ 2 ^ 52) {offset : Nat} (inRange : offset < 4096 * pages) :
    (after.vmmGetPhysicalFromVirtual (vAddr + offset)).1 = pAddr + offset := by
  have inPage : offset / 4096 < pages := by omega
  have samePage : page (vAddr + offset) = page (vAddr + 4096 * (offset / 4096)) := by
    unfold page
    congr 1
    omega
  rw [vmmGetPhysicalFromVirtual_mapped
    ((leaf_congr _ samePage).trans (mapped.onRange _ inPage))]
  simp only [requestedLeaf]
  rw [word_of_lt (by omega)]
  omega

theorem MappedRange.outside (mapped : MappedRange before after vAddr pAddr pages flags)
    (vAligned : vAddr % 4096 = 0) {other : Nat} (otherCanonical : Canonical other)
    (canonical : ∀ offset < pages, Canonical (vAddr + 4096 * offset))
    (outside : other < vAddr ∨ vAddr + 4096 * pages ≤ other) :
    after.leaf other = before.leaf other := by
  apply mapped.offRange
  intro offset inRange same
  have samePage := page_injective otherCanonical (canonical offset inRange) same
  omega

end MappedRange

theorem canonical_range_bounds (positive : 1 ≤ pages)
    (canonical : ∀ offset < 4096 * pages, Canonical (vAddr + offset)) :
    vAddr + 4096 * pages ≤ 2 ^ 64 ∧ pages ≤ 2 ^ 35 := by
  have last := canonical (4096 * pages - 1) (by omega)
  have first := canonical 0 (by omega)
  have middle : ∀ offset < 4096 * pages, vAddr + offset < 2 ^ 47 ∨
      2 ^ 64 - 2 ^ 47 ≤ vAddr + offset := by
    intro offset inRange
    rcases canonical offset inRange with lower | upper
    · exact Or.inl lower
    · exact Or.inr upper.1
  unfold Canonical at last first
  by_cases low : vAddr < 2 ^ 47
  · -- a range that starts in the lower half cannot cross the hole
    have staysLow : vAddr + 4096 * pages ≤ 2 ^ 47 := by
      by_contra crosses
      have gap := middle (2 ^ 47 - vAddr) (by omega)
      omega
    omega
  · omega

/-- `vmm_map` succeeds exactly on ranges without a present page; then it realises
the requested translation and flags, leaves every other page alone, keeps the tables
well-formed, and is undone by `vmm_unmap`. -/
theorem vmm_map_translates (vmm : Vmm) (formed : vmm.WellFormed) (vAddr pAddr pages flags : Nat)
    (positive : 1 ≤ pages) (vAligned : vAddr % 4096 = 0)
    (canonical : ∀ offset < 4096 * pages, Canonical (vAddr + offset))
    (pAligned : pAddr % 4096 = 0) (pBound : pAddr + 4096 * pages ≤ 2 ^ 52)
    (small : ∀ offset < pages, vmm.hugeAt (vAddr + 4096 * offset) = false)
    (notHuge : flagBit flags 4 = false) (supplied : vmm.Supplied (rangePaths vAddr pages)) :
    ((vmm.vmmMap vAddr pAddr pages flags).1 = 0 ↔
      ∀ offset < pages, vmm.leaf (vAddr + 4096 * offset) = none) ∧
    ((vmm.vmmMap vAddr pAddr pages flags).1 = 0 →
      (∀ offset < 4096 * pages,
        ((vmm.vmmMap vAddr pAddr pages flags).2.vmmGetPhysicalFromVirtual (vAddr + offset)).1 =
          pAddr + offset) ∧
      (∀ offset < pages, (vmm.vmmMap vAddr pAddr pages flags).2.leaf (vAddr + 4096 * offset) =
        some (requestedLeaf (pAddr / 4096 + offset) flags)) ∧
      (∀ other, Canonical other → (other < vAddr ∨ vAddr + 4096 * pages ≤ other) →
        (vmm.vmmMap vAddr pAddr pages flags).2.leaf other = vmm.leaf other) ∧
      (∀ other, (vmm.vmmMap vAddr pAddr pages flags).2.hugeAt other = vmm.hugeAt other) ∧
      (vmm.vmmMap vAddr pAddr pages flags).2.WellFormed ∧
      ∀ other, ((vmm.vmmMap vAddr pAddr pages flags).2.vmmUnmap vAddr pages).2.leaf other =
        vmm.leaf other) := by
  obtain ⟨vBound, few⟩ := canonical_range_bounds positive canonical
  have notZero : pages ≠ 0 := by omega
  have covered : ∀ offset < pages,
      walkPaths (vAddr + 4096 * offset) ⊆ rangePaths vAddr pages := fun offset inRange =>
    Finset.subset_biUnion_of_mem (fun k => walkPaths (vAddr + 4096 * k))
      (Finset.mem_range.mpr inRange)
  have short : ∀ path ∈ rangePaths vAddr pages, path.length ≤ 3 :=
    fun path member => rangePaths_short member
  have cases := mapPages_cases flags notHuge (rangePaths vAddr pages) short pages vAddr pAddr
    vmm formed supplied covered small vBound (by omega) pBound
  simp only [vmmMap, vmmUnmap, if_neg notZero]
  generalize mapPages flags pages vAddr pAddr vmm = result at cases ⊢
  obtain ⟨afterSupplied, ⟨absent, zero, mapped⟩ | ⟨⟨offset, inRange, busy⟩, refused⟩⟩ := cases
  · have stillSmall : ∀ offset < pages, result.2.hugeAt (vAddr + 4096 * offset) = false := by
      intro offset inRange
      rw [mapped.sameHuge]
      exact small offset inRange
    refine ⟨⟨fun _ => absent, fun _ => zero⟩,
      fun _ => ⟨?_, mapped.onRange, ?_, mapped.sameHuge, mapped.formed, ?_⟩⟩
    · intro offset inRange
      exact mapped.translates vAligned pAligned pBound inRange
    · intro other otherCanonical outside
      apply mapped.outside vAligned otherCanonical _ outside
      intro offset inRange
      exact canonical (4096 * offset) (by omega)
    · intro other
      obtain ⟨unmapped, cleared⟩ := unmapPages_confined short pages vAddr result.2
        ⟨mapped.formed, afterSupplied, covered, stillSmall⟩
      by_cases inside : ∃ offset < pages, page other = page (vAddr + 4096 * offset)
      · obtain ⟨offset, inRange, same⟩ := inside
        rw [leaf_congr _ same, leaf_congr vmm same, cleared offset inRange, absent offset inRange]
      · have outside : ∀ offset < pages, page other ≠ page (vAddr + 4096 * offset) :=
          fun offset inRange same => inside ⟨offset, inRange, same⟩
        rw [unmapped.offRange other outside, mapped.offRange other outside]
  · have nonzero : result.1 ≠ 0 := by
      rw [refused]
      decide
    refine ⟨⟨fun zero => absurd zero nonzero, fun absent => ?_⟩, fun zero => absurd zero nonzero⟩
    exact absurd (absent offset inRange) busy

def emptyTables : Vmm :=
  { pmm :=
      { eightFrames with
        bitmap := fun index => if index = 0 then 3 else 0
        memoryUsedFrameCount := 2 }
    pml4 := 1
    stores := [] }

section Blank

variable (blank : ∀ table index, vmm.entry table index = PageTableEntry.zero)

include blank

theorem blank_tableAt (path : List (Fin 512)) (table : Nat) (here : vmm.tableAt path = some table) :
    path = [] ∧ table = vmm.pml4 := by
  cases path with
  | nil => exact ⟨rfl, (Option.some.inj here).symm⟩
  | cons index parent =>
    simp only [tableAt, blank] at here
    split at here
    · cases here
    · cases here

theorem blank_wellFormed
    (used : vmm.pml4 < vmm.pmm.bitmapSizeFrames ∧ vmm.pmm.used vmm.pml4 = true) :
    vmm.WellFormed where
  distinct := by
    intro left right table _ _ atLeft atRight
    rw [(blank_tableAt blank left table atLeft).1, (blank_tableAt blank right table atRight).1]
  used := by
    intro path table _ here
    rw [(blank_tableAt blank path table here).2]
    exact used
  absentZero := fun _ table index _ _ _ => blank table index
  noHuge := by
    intro _ table index _ _
    rw [blank]
    rfl

end Blank

theorem emptyTables_wellFormed : emptyTables.WellFormed :=
  blank_wellFormed (fun _ _ => rfl) (by decide)

def roomyTables : Vmm :=
  { emptyTables with
    pmm :=
      { emptyTables.pmm with
        bitmapSizeFrames := 64
        memoryTotalFrameCount := 64
        totalFrames := rfl
        framesPositive := by decide
        framesBound := by decide } }

theorem roomyTables_wellFormed : roomyTables.WellFormed :=
  blank_wellFormed (fun _ _ => rfl) (by decide)

theorem vmm_map_translates_emptyTables :
    (emptyTables.vmmMap 0x1000 0x5000 1 1).1 = 0 ∧
    ((emptyTables.vmmMap 0x1000 0x5000 1 1).2.vmmGetPhysicalFromVirtual 0x1005).1 = 0x5005 ∧
    ((emptyTables.vmmMap 0x1000 0x5000 1 1).2.vmmUnmap 0x1000 1).2.leaf 0x1000 = none := by
  have canonical : ∀ offset < 4096 * 1, Canonical (0x1000 + offset) :=
    fun offset inRange => Or.inl (by omega)
  have supplied : emptyTables.Supplied (rangePaths 0x1000 1) :=
    Nat.le_trans (Finset.card_filter_le _ _) (by decide)
  have main := vmm_map_translates emptyTables emptyTables_wellFormed 0x1000 0x5000 1 1 (by decide)
    (by decide) canonical (by decide) (by decide) (fun _ _ => rfl) (by decide) supplied
  have absent : ∀ offset < 1, emptyTables.leaf (0x1000 + 4096 * offset) = none :=
    fun _ _ => rfl
  have mapped := main.1.mpr absent
  exact ⟨mapped, (main.2 mapped).1 5 (by decide), (main.2 mapped).2.2.2.2.2 0x1000⟩

end Vmm
end Fesos
