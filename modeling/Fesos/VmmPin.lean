/-
Pinning the pages of a buffer: `vmm_pin_pages` of memory/vmm.c.

The loop runs from the first page of the buffer to the page of the start of that page plus
the byte count, which for an unaligned buffer can be one page short of the buffer's end.
A page that is not present is passed to demand paging, whose 0 means success; the loop
takes it for a failure.  The loop compares with `<=`, so it does not end by itself when
the last page is the last one of the address space: then `pinFuel` runs out.
-/

import Fesos.VmaFault
import Fesos.VmmConflict

set_option autoImplicit false

namespace Fesos

open BinaryTree

namespace Vma

/-! ### The code -/

def lookUpPte (page : Nat) (vma : Vma) : PageTableEntry × Vma :=
  let pte := vma.vmm.vmmGetPte page
  (pte.2.entry pte.1.1 pte.1.2, { vma with vmm := pte.2 })

/-- One round of the loop; `false` is its return of `-EFAULT`. -/
def pinPage (searchFuel : Nat) (writeAccess : Bool) (page : Nat) (vma : Vma) :
    Except Fault (Bool × Vma) :=
  let looked := lookUpPte page vma
  if looked.1.present then .ok (!writeAccess || looked.1.writeable, looked.2)
  else if writeAccess = false then .ok (false, looked.2)
  else do
    let paged ← demandPagingWithin searchFuel page looked.2
    if paged.1 = 0 then pure (false, paged.2)
    else pure ((lookUpPte page paged.2).1.writeable, (lookUpPte page paged.2).2)

def pinPages (searchFuel : Nat) (writeAccess : Bool) (endPage : Nat) :
    Nat → Nat → Vma → Except Fault (Int × Vma)
  | 0, _, _ => .error .outOfFuel
  | fuel + 1, page, vma =>
    if page ≤ endPage then do
      let pinned ← pinPage searchFuel writeAccess page vma
      if pinned.1 then
        pinPages searchFuel writeAccess endPage fuel (word (page + 0x1000)) pinned.2
      else pure (-EFAULT, pinned.2)
    else .ok (0, vma)

/-- One round more than the address space has pages. -/
def pinFuel : Nat := 2 ^ 52 + 1

def startPage (vAddr : Nat) : Nat := vAddr / 4096 * 4096

def endPage (vAddr count : Nat) : Nat := word (startPage vAddr + count - 1) / 4096 * 4096

def vmmPinPagesWithin (searchFuel vAddr count : Nat) (writeAccess : Bool) (vma : Vma) :
    Except Fault (Int × Vma) :=
  if vAddr < 0xFFF then .ok (-EFAULT, vma)
  else if count = 0 then .ok (-EINVAL, vma)
  else
    pinPages searchFuel writeAccess (endPage vAddr count) pinFuel (startPage vAddr) vma

def vmmPinPages : Nat → Nat → Bool → Vma → Except Fault (Int × Vma) := vmmPinPagesWithin treeFuel

end Vma

namespace Vmm

/-! ### The entry of a page -/

def Pinned (vmm : Vmm) (writeAccess : Bool) (vAddr : Nat) : Prop :=
  ∃ size entry, vmm.mapping vAddr = some (size, entry) ∧
    (writeAccess = true → entry.writeable = true)

section Entry

variable {vmm : Vmm} {vAddr : Nat}

variable {entry : PageTableEntry}

theorem vmmGetPte_leaf (mapped : vmm.leaf vAddr = some entry) :
    ∃ place, vmm.vmmGetPte vAddr = (place, vmm) ∧ vmm.entry place.1 place.2 = entry := by
  obtain ⟨pd, pt, atPd, small, atPt, isLeaf⟩ := leaf_table mapped
  have toPd : vmm.walkToPd vAddr = (pd, vmm) := walkTo_existing _ atPd
  have toPt : vmm.walkToPt vAddr = (pt, vmm) := walkTo_existing _ atPt
  unfold walkToPt at toPt
  rw [toPd] at toPt
  refine ⟨(pt, ptIndex vAddr), ?_, isLeaf⟩
  unfold vmmGetPte
  simp only [toPd, small, toPt, Bool.false_eq_true, if_false]

theorem vmmGetPte_huge (held : vmm.slot (ptPath vAddr) = some entry)
    (huge : entry.hugePage = true) :
    ∃ place, vmm.vmmGetPte vAddr = (place, vmm) ∧ vmm.entry place.1 place.2 = entry := by
  have isHuge : vmm.hugeAt vAddr = true := by
    unfold hugeAt
    rw [held]
    exact huge
  obtain ⟨pd, atPd⟩ := pd_of_huge isHuge
  have toPd : vmm.walkToPd vAddr = (pd, vmm) := walkTo_existing _ atPd
  have isEntry : vmm.slot (ptPath vAddr) = _ := slot_cons atPd
  rw [held] at isEntry
  split at isEntry
  · cases isEntry
    refine ⟨(pd, pdIndex vAddr), ?_, rfl⟩
    unfold vmmGetPte
    simp only [toPd, huge, if_true]
  · cases isEntry

theorem slot_present {path : List (Fin 512)}
    (held : vmm.slot path = some entry) : entry.present = true := by
  cases path with
  | nil => cases held
  | cons index parent =>
    cases here : vmm.tableAt parent with
    | none =>
      rw [slot_below_none here] at held
      cases held
    | some table =>
      rw [slot_cons here] at held
      split at held
      · rename_i present
        cases held
        exact present
      · cases held

theorem slot_of_table {index : Fin 512} {parent : List (Fin 512)} {table : Nat}
    (here : vmm.tableAt (index :: parent) = some table) :
    ∃ entry, vmm.slot (index :: parent) = some entry ∧ entry.hugePage = false := by
  cases above : vmm.tableAt parent with
  | none =>
    rw [tableAt_below_none above] at here
    cases here
  | some parentTable =>
    rw [tableAt_cons above] at here
    split at here
    · rename_i leads
      have both := Bool.and_eq_true_iff.mp leads
      refine ⟨vmm.entry parentTable index, ?_, by simpa using both.2⟩
      rw [slot_cons above, if_pos both.1]
    · cases here

theorem mapping_of_directory {directory : PageTableEntry}
    (held : vmm.slot (ptPath vAddr) = some directory) :
    vmm.mapping vAddr = if directory.hugePage then some (2 ^ 21, directory)
      else (vmm.leaf vAddr).map (fun entry => (2 ^ 12, entry)) := by
  cases atPd : vmm.tableAt (pdPath vAddr) with
  | none =>
    have missing : vmm.slot (ptPath vAddr) = none := slot_below_none atPd
    rw [held] at missing
    cases missing
  | some pd =>
    obtain ⟨pointer, heldPd, small⟩ := slot_of_table atPd
    have atPointer : vmm.slot (pdPath vAddr) = some pointer := heldPd
    unfold mapping
    rw [atPointer, held]
    simp only [small, Bool.false_eq_true, if_false]

theorem mapping_of_no_directory (formed : vmm.WellFormed)
    (absent : vmm.slot (ptPath vAddr) = none) : vmm.mapping vAddr = none := by
  unfold mapping
  cases heldPd : vmm.slot (pdPath vAddr) with
  | none => rfl
  | some pointer =>
    have small := pd_small formed pointer heldPd
    rw [absent]
    simp only [small, Bool.false_eq_true, if_false]

theorem mapping_some (formed : vmm.WellFormed) {size : Nat}
    (mapped : vmm.mapping vAddr = some (size, entry)) :
    vmm.leaf vAddr = some entry ∨
      (vmm.slot (ptPath vAddr) = some entry ∧ entry.hugePage = true) := by
  cases held : vmm.slot (ptPath vAddr) with
  | none =>
    rw [mapping_of_no_directory formed held] at mapped
    cases mapped
  | some directory =>
    rw [mapping_of_directory held] at mapped
    split at mapped
    · rename_i huge
      cases mapped
      exact Or.inr ⟨rfl, huge⟩
    · obtain ⟨leafEntry, isLeaf, same⟩ := Option.map_eq_some_iff.mp mapped
      cases same
      exact Or.inl isLeaf

theorem vmmGetPte_mapped (formed : vmm.WellFormed) {size : Nat}
    (mapped : vmm.mapping vAddr = some (size, entry)) :
    (∃ place, vmm.vmmGetPte vAddr = (place, vmm) ∧ vmm.entry place.1 place.2 = entry) ∧
      entry.present = true := by
  rcases mapping_some formed mapped with isLeaf | ⟨held, huge⟩
  · exact ⟨vmmGetPte_leaf isLeaf, slot_present isLeaf⟩
  · exact ⟨vmmGetPte_huge held huge, slot_present held⟩

theorem mapping_none (unmapped : vmm.mapping vAddr = none) :
    vmm.leaf vAddr = none ∧ vmm.hugeAt vAddr = false := by
  unfold hugeAt
  cases held : vmm.slot (ptPath vAddr) with
  | none =>
    refine ⟨?_, rfl⟩
    cases atPt : vmm.tableAt (ptPath vAddr) with
    | none => exact slot_below_none atPt
    | some pt =>
      obtain ⟨entry, present, _small⟩ := slot_of_table atPt
      have there : vmm.slot (ptPath vAddr) = some entry := present
      rw [held] at there
      cases there
  | some directory =>
    rw [mapping_of_directory held] at unmapped
    split at unmapped
    · cases unmapped
    · rename_i small
      exact ⟨Option.map_eq_none_iff.mp unmapped, Bool.eq_false_iff.mpr small⟩

/-- Looking for the entry of an unmapped page creates its tables and finds a zero entry. -/
theorem vmmGetPte_unmapped (formed : vmm.WellFormed) (unmapped : vmm.mapping vAddr = none)
    (supplied : vmm.Supplied (walkPaths vAddr)) :
    Walked vmm (vmm.vmmGetPte vAddr).2 3 ∧ (vmm.vmmGetPte vAddr).2.Supplied (walkPaths vAddr) ∧
      (vmm.vmmGetPte vAddr).2.entry (vmm.vmmGetPte vAddr).1.1 (vmm.vmmGetPte vAddr).1.2 =
        PageTableEntry.zero := by
  obtain ⟨absent, small⟩ := mapping_none unmapped
  have pathsShort : ∀ path ∈ walkPaths vAddr, path.length ≤ 3 :=
    fun path member => tablesOf_short member
  have smallEntry := (walkToPd_hugePage formed supplied pathsShort (Finset.Subset.refl _)).trans small
  obtain ⟨walked, still, atPt⟩ := walkToPt_reaches formed supplied pathsShort
    (Finset.Subset.refl _) small
  have isPt : vmm.vmmGetPte vAddr = (((vmm.walkToPt vAddr).1, ptIndex vAddr),
      (vmm.walkToPt vAddr).2) := by
    unfold vmmGetPte walkToPt
    simp only [smallEntry, Bool.false_eq_true, if_false]
  have held := leaf_at_pt walked atPt
  rw [absent] at held
  rw [isPt]
  refine ⟨walked, still, ?_⟩
  split at held
  · cases held
  · rename_i notPresent
    exact walked.formed.absentZero _ _ _ (ptPath_short vAddr) atPt (Bool.eq_false_iff.mpr notPresent)

theorem Walked.mapping {before after : Vmm} (walked : Walked before after 3)
    (unmapped : before.mapping vAddr = none) : after.mapping vAddr = none := by
  have absent := mapping_none unmapped
  have still : after.Unmapped 0 vAddr :=
    ⟨(walked.sameLeaf vAddr).trans absent.1, fun _ => (walked.sameHuge vAddr).trans absent.2⟩
  exact still.mapping walked.formed

end Entry

end Vmm

namespace Vma

/-! ### One round -/

section Round

variable {vma : Vma} {searchFuel page : Nat} {writeAccess : Bool}

section

variable (formed : vma.vmm.WellFormed)

include formed

theorem lookUpPte_mapped {size : Nat} {entry : PageTableEntry}
    (mapped : vma.vmm.mapping page = some (size, entry)) : lookUpPte page vma = (entry, vma) := by
  obtain ⟨⟨place, found, isEntry⟩, _present⟩ := Vmm.vmmGetPte_mapped formed mapped
  unfold lookUpPte
  simp only [found, isEntry]

theorem pinPage_mapped {size : Nat} {entry : PageTableEntry}
    (mapped : vma.vmm.mapping page = some (size, entry)) :
    pinPage searchFuel writeAccess page vma = .ok (!writeAccess || entry.writeable, vma) := by
  have present := (Vmm.vmmGetPte_mapped formed mapped).2
  unfold pinPage
  simp only [lookUpPte_mapped formed mapped, present, if_true]

theorem pinPage_pinned (pinned : vma.vmm.Pinned writeAccess page) :
    pinPage searchFuel writeAccess page vma = .ok (true, vma) := by
  obtain ⟨size, entry, mapped, allowed⟩ := pinned
  rw [pinPage_mapped formed mapped]
  cases writeAccess with
  | false => rfl
  | true => rw [allowed rfl, Bool.or_true]

/-- A page that is not present is never passed: what demand paging serves is refused, and
what it does not serve still has a zero entry. -/
theorem pinPage_unmapped (unmapped : vma.vmm.mapping page = none)
    (supplied : vma.vmm.Supplied (Vmm.walkPaths page)) {result : Bool × Vma}
    (run : pinPage searchFuel writeAccess page vma = .ok result) : result.1 = false := by
  have query := Vmm.vmmGetPte_unmapped formed unmapped supplied
  have looked : (lookUpPte page vma).1 = PageTableEntry.zero := query.2.2
  have absent : (lookUpPte page vma).1.present = false := by
    rw [looked]
    rfl
  unfold pinPage at run
  simp only [absent, Bool.false_eq_true, if_false] at run
  cases writeAccess with
  | false =>
    rw [if_pos rfl] at run
    cases run
    rfl
  | true =>
    rw [if_neg (by decide)] at run
    obtain ⟨paged, fault, rest⟩ := bind_eq_ok run
    by_cases served : paged.1 = 0
    · rw [if_pos served] at rest
      cases rest
      rfl
    rw [if_neg served] at rest
    obtain ⟨node, _search, outcome⟩ := bind_eq_ok fault
    have same : paged.2 = (lookUpPte page vma).2 := by
      cases outcome
      unfold serveFault at served ⊢
      split_ifs at served ⊢ with nowhere irregular
      · rfl
      · rfl
      · exact absurd rfl served
    have again := Vmm.vmmGetPte_unmapped query.1.formed (query.1.mapping unmapped) query.2.1
    have zero : (lookUpPte page paged.2).1 = PageTableEntry.zero := by
      rw [same]
      exact again.2.2
    cases rest
    rw [zero]
    rfl

theorem pinPage_refused (missing : ¬ vma.vmm.Pinned writeAccess page)
    (supplied : vma.vmm.Supplied (Vmm.walkPaths page)) {result : Bool × Vma}
    (run : pinPage searchFuel writeAccess page vma = .ok result) : result.1 = false := by
  cases mapped : vma.vmm.mapping page with
  | none => exact pinPage_unmapped formed mapped supplied run
  | some found =>
    rw [pinPage_mapped formed mapped] at run
    cases run
    by_contra passed
    apply missing
    refine ⟨found.1, found.2, mapped, ?_⟩
    intro write
    rw [write] at passed
    simpa using passed

end

theorem pinPage_returns {shape : BinaryTree Nat} (heap : vma.HeapTree shape)
    (enough : shape.height < searchFuel) (writeAccess : Bool) (page : Nat) :
    ∃ result, pinPage searchFuel writeAccess page vma = .ok result := by
  have sameHeap : (lookUpPte page vma).2.HeapTree shape :=
    { rooted := heap.rooted
      linked := heap.linked
      apart := heap.apart
      inHeap := heap.inHeap }
  have fault : ∃ paged, demandPagingWithin searchFuel page (lookUpPte page vma).2 = .ok paged := by
    rcases sameHeap.demandPaging_eq enough page with ⟨node, _, _, run⟩ | ⟨_, run⟩
    · exact ⟨_, run⟩
    · exact ⟨_, run⟩
  obtain ⟨paged, run⟩ := fault
  unfold pinPage
  dsimp only
  rw [run, ok_bind]
  split
  · exact ⟨_, rfl⟩
  split
  · exact ⟨_, rfl⟩
  · split
    · exact ⟨_, rfl⟩
    · exact ⟨_, rfl⟩

end Round

/-! ### The loop -/

section Loop

variable {searchFuel endPage : Nat} {writeAccess : Bool}

theorem pinPages_never_zero (top : 2 ^ 64 - 4096 ≤ endPage) (fuel page : Nat) (vma : Vma)
    (aligned : page % 4096 = 0) (inWord : page < 2 ^ 64) (after : Vma) :
    pinPages searchFuel writeAccess endPage fuel page vma ≠ .ok (0, after) := by
  induction fuel generalizing page vma with
  | zero => exact fun impossible => by cases impossible
  | succ fuel ih =>
    have stays : page ≤ endPage := by omega
    intro run
    rw [pinPages, if_pos stays] at run
    obtain ⟨pinned, _round, rest⟩ := bind_eq_ok run
    split at rest
    · exact ih _ _ (by unfold word; omega) (word_lt _) rest
    · cases rest

/-- A loop that returns 0 has passed every page up to the last one and changed nothing. -/
theorem pinPages_zero (fuel page : Nat) (vma : Vma) (formed : vma.vmm.WellFormed)
    (aligned : page % 4096 = 0) (inWord : page < 2 ^ 64) (endAligned : endPage % 4096 = 0)
    (supplied : ∀ other, other % 4096 = 0 → page ≤ other → other ≤ endPage →
      vma.vmm.Supplied (Vmm.walkPaths other)) {after : Vma}
    (run : pinPages searchFuel writeAccess endPage fuel page vma = .ok (0, after)) :
    after = vma ∧ ∀ other, other % 4096 = 0 → page ≤ other → other ≤ endPage →
      vma.vmm.Pinned writeAccess other := by
  induction fuel generalizing page with
  | zero => cases run
  | succ fuel ih =>
    have whole := run
    rw [pinPages] at run
    by_cases stays : page ≤ endPage
    · rw [if_pos stays] at run
      obtain ⟨result, round, rest⟩ := bind_eq_ok run
      have pinned : vma.vmm.Pinned writeAccess page := by
        by_contra missing
        rw [pinPage_refused formed missing (supplied page aligned (Nat.le_refl _) stays) round]
          at rest
        cases rest
      rw [pinPage_pinned formed pinned] at round
      cases round
      rw [if_pos rfl] at rest
      have notTop : endPage < 2 ^ 64 - 4096 := by
        by_contra top
        exact pinPages_never_zero (by omega) _ _ _ aligned inWord _ whole
      have next : word (page + 0x1000) = page + 0x1000 := word_of_lt (by omega)
      rw [next] at rest
      have later := ih (page + 0x1000) (by omega) (by omega)
        (fun other otherAligned lower upper => supplied other otherAligned (by omega) upper) rest
      refine ⟨later.1, ?_⟩
      intro other otherAligned lower upper
      by_cases first : other = page
      · rw [first]
        exact pinned
      · exact later.2 other otherAligned (by omega) upper
    · rw [if_neg stays] at run
      cases run
      exact ⟨rfl, fun other _ lower upper => absurd (lower.trans upper) stays⟩

theorem pinPages_pinned (searchFuel fuel page : Nat) (vma : Vma) (formed : vma.vmm.WellFormed)
    (aligned : page % 4096 = 0) (near : page ≤ endPage + 4096)
    (enough : endPage + 4096 < page + 4096 * fuel) (notTop : endPage < 2 ^ 64 - 4096)
    (pinned : ∀ other, other % 4096 = 0 → page ≤ other → other ≤ endPage →
      vma.vmm.Pinned writeAccess other) :
    pinPages searchFuel writeAccess endPage fuel page vma = .ok (0, vma) := by
  induction fuel generalizing page with
  | zero => omega
  | succ fuel ih =>
    rw [pinPages]
    by_cases stays : page ≤ endPage
    · have next : word (page + 0x1000) = page + 0x1000 := word_of_lt (by omega)
      rw [if_pos stays, pinPage_pinned formed (pinned page aligned (Nat.le_refl _) stays), ok_bind,
        if_pos rfl, next]
      exact ih (page + 0x1000) (by omega) (by omega) (by omega)
        (fun other otherAligned lower upper => pinned other otherAligned (by omega) upper)
    · rw [if_neg stays]

/-- A page that is not present, or not writeable when asked for, is refused. -/
theorem pinPages_refused {shape : BinaryTree Nat} (searchEnough : shape.height < searchFuel)
    (fuel page : Nat) (vma : Vma) (heap : vma.HeapTree shape) (formed : vma.vmm.WellFormed)
    (aligned : page % 4096 = 0) (inWord : endPage < 2 ^ 64)
    (enough : endPage < page + 4096 * fuel)
    (supplied : ∀ other, other % 4096 = 0 → page ≤ other → other ≤ endPage →
      vma.vmm.Supplied (Vmm.walkPaths other))
    (missing : ∃ other, other % 4096 = 0 ∧ page ≤ other ∧ other ≤ endPage ∧
      ¬ vma.vmm.Pinned writeAccess other) :
    ∃ after, pinPages searchFuel writeAccess endPage fuel page vma = .ok (-EFAULT, after) := by
  obtain ⟨other, otherAligned, lower, upper, notPinned⟩ := missing
  induction fuel generalizing page with
  | zero => omega
  | succ fuel ih =>
    rw [pinPages, if_pos (lower.trans upper)]
    obtain ⟨result, round⟩ := pinPage_returns heap searchEnough writeAccess page
    by_cases pinned : vma.vmm.Pinned writeAccess page
    · have later : page ≠ other := by
        intro same
        rw [same] at pinned
        exact notPinned pinned
      have next : word (page + 0x1000) = page + 0x1000 := word_of_lt (by omega)
      rw [pinPage_pinned formed pinned, ok_bind, if_pos rfl, next]
      exact ih (page + 0x1000) (by omega) (by omega)
        (fun address addressAligned above below =>
          supplied address addressAligned (by omega) below) (by omega)
    · have refused := pinPage_refused formed pinned
        (supplied page aligned (Nat.le_refl _) (lower.trans upper)) round
      rw [round, ok_bind, refused, if_neg (by decide)]
      exact ⟨_, rfl⟩

end Loop

/-! ### The pages of a buffer -/

def OfBuffer (vAddr count page : Nat) : Prop :=
  count ≠ 0 ∧ page % 4096 = 0 ∧ vAddr < page + 4096 ∧ page < vAddr + count

def lastPage (vAddr count : Nat) : Nat := (vAddr + count - 1) / 4096 * 4096

def Checked (vAddr count page : Nat) : Prop :=
  page % 4096 = 0 ∧ startPage vAddr ≤ page ∧ page ≤ endPage vAddr count

section Buffer

variable {vAddr count : Nat}

theorem endPage_eq (noWrap : vAddr + count < 2 ^ 64) :
    endPage vAddr count = (startPage vAddr + count - 1) / 4096 * 4096 := by
  unfold endPage startPage
  rw [word_of_lt (by omega)]

theorem ofBuffer_iff (positive : count ≠ 0) (noWrap : vAddr + count < 2 ^ 64) (page : Nat) :
    OfBuffer vAddr count page ↔
      Checked vAddr count page ∨ page = lastPage vAddr count := by
  unfold OfBuffer Checked lastPage
  rw [endPage_eq noWrap]
  unfold startPage
  omega

theorem endPage_lt (noWrap : vAddr + count < 2 ^ 64) :
    endPage vAddr count < 2 ^ 64 := by
  rw [endPage_eq noWrap]
  unfold startPage
  omega

theorem pinFuel_enough (noWrap : vAddr + count < 2 ^ 64) :
    endPage vAddr count + 4096 < startPage vAddr + 4096 * pinFuel := by
  have small := endPage_lt noWrap
  unfold pinFuel
  omega

theorem vmmPinPagesWithin_loop {searchFuel : Nat} {writeAccess : Bool} {vma : Vma}
    (notNull : 0xFFF ≤ vAddr) (positive : count ≠ 0) :
    vmmPinPagesWithin searchFuel vAddr count writeAccess vma =
      pinPages searchFuel writeAccess (endPage vAddr count) pinFuel (startPage vAddr) vma := by
  unfold vmmPinPagesWithin
  rw [if_neg (Nat.not_lt_of_le notNull), if_neg positive]

/-- Pages that are all present, and writeable if asked for, are passed if the loop ends
below the top of the address space. -/
theorem vmmPinPages_passes {vma : Vma} {writeAccess : Bool} (searchFuel : Nat)
    (formed : vma.vmm.WellFormed) (positive : count ≠ 0) (notNull : 0xFFF ≤ vAddr)
    (noWrap : vAddr + count < 2 ^ 64) (notTop : endPage vAddr count < 2 ^ 64 - 4096)
    (pinned : ∀ page, Checked vAddr count page → vma.vmm.Pinned writeAccess page) :
    vmmPinPagesWithin searchFuel vAddr count writeAccess vma = .ok (0, vma) := by
  rw [vmmPinPagesWithin_loop notNull positive]
  apply pinPages_pinned searchFuel pinFuel (startPage vAddr) vma formed (Nat.mul_mod_left _ _)
  · rw [endPage_eq noWrap]
    unfold startPage
    omega
  · exact pinFuel_enough noWrap
  · exact notTop
  · exact fun page aligned lower upper => pinned page ⟨aligned, lower, upper⟩

end Buffer

/-- What `vmm_pin_pages` vouches for by returning 0 holds of every page of the buffer
exactly when the loop's pages, if they all pass, do not leave out a last page that does
not. -/
theorem vmmPinPages_pins_iff (vma : Vma) (vAddr count : Nat) (writeAccess : Bool)
    (formed : vma.vmm.WellFormed) (noWrap : vAddr + count < 2 ^ 64)
    (supplied : ∀ page, OfBuffer vAddr count page → vma.vmm.Supplied (Vmm.walkPaths page)) :
    (∀ after, vmmPinPages vAddr count writeAccess vma = .ok (0, after) →
      ∀ page, OfBuffer vAddr count page → after.vmm.Pinned writeAccess page) ↔
    (0xFFF ≤ vAddr → count ≠ 0 →
      (∀ page, Checked vAddr count page → vma.vmm.Pinned writeAccess page) →
      vma.vmm.Pinned writeAccess (lastPage vAddr count)) := by
  have startAligned : startPage vAddr % 4096 = 0 := Nat.mul_mod_left _ _
  have endAligned : endPage vAddr count % 4096 = 0 := Nat.mul_mod_left _ _
  constructor
  · intro vouched notNull positive pinned
    have inBuffer := (ofBuffer_iff positive noWrap (lastPage vAddr count)).mpr (Or.inr rfl)
    by_cases within : lastPage vAddr count ≤ endPage vAddr count
    · have lower : startPage vAddr ≤ lastPage vAddr count := by
        unfold startPage lastPage
        omega
      exact pinned _ ⟨inBuffer.2.1, lower, within⟩
    -- the last page is left out, so the loop ends and 0 is returned
    have notTop : endPage vAddr count < 2 ^ 64 - 4096 := by
      have small := inBuffer.2.2.2
      have aligned := inBuffer.2.1
      omega
    apply vouched vma _ _ inBuffer
    exact vmmPinPages_passes treeFuel formed positive notNull noWrap notTop pinned
  · intro honest after run page inBuffer
    by_cases null : vAddr < 0xFFF
    · unfold vmmPinPages vmmPinPagesWithin at run
      rw [if_pos null] at run
      cases run
    by_cases none : count = 0
    · unfold vmmPinPages vmmPinPagesWithin at run
      rw [if_neg null, if_pos none] at run
      cases run
    have notNull : 0xFFF ≤ vAddr := Nat.le_of_not_lt null
    unfold vmmPinPages at run
    rw [vmmPinPagesWithin_loop notNull none] at run
    have passed := pinPages_zero pinFuel (startPage vAddr) vma formed startAligned
      (by unfold startPage; omega) endAligned
      (fun other aligned lower upper =>
        supplied other ((ofBuffer_iff none noWrap other).mpr (Or.inl ⟨aligned, lower, upper⟩)))
      run
    have checked : ∀ other, Checked vAddr count other → vma.vmm.Pinned writeAccess other :=
      fun other inLoop => passed.2 other inLoop.1 inLoop.2.1 inLoop.2.2
    rw [passed.1]
    rcases (ofBuffer_iff none noWrap page).mp inBuffer with inLoop | isLast
    · exact checked page inLoop
    · rw [isLast]
      exact honest notNull none checked

def regularHeap (size : Nat) (vmm : Vmm) : Vma :=
  { nodes :=
      { parent := fun _ => 0
        left := fun _ => 0
        right := fun _ => 0
        subtreeMaxDepth := fun _ => 0
        update := fun _ => 0
        data := fun _ => ⟨kernelHeapStart, size, .regular, slabFlags, ⟨0, 0⟩⟩
        summary := fun _ => 0 }
    heapRoot := 1
    mmioRoot := 0
    freeList := 0
    freeNodeCount := 0
    inReplenishCycle := false
    vmm := vmm
    slabPages := [] }

theorem regularHeap_heapTree (size : Nat) (vmm : Vmm) (fits : size ≤ kernelHeapSize) :
    (regularHeap size vmm).HeapTree (node 1 nil nil) where
  rooted := rfl
  linked := ⟨Nat.one_ne_zero, rfl, rfl, rfl, trivial, trivial⟩
  apart := List.pairwise_singleton _ _
  inHeap := by
    intro node _member
    have limit : kernelHeapStart + kernelHeapSize ≤ kernelHeapLimit := by decide
    refine ⟨Nat.le_refl _, ?_⟩
    change kernelHeapStart + size ≤ kernelHeapLimit
    omega

def firstPageTables : Vmm := (Vmm.emptyTables.vmmMap kernelHeapStart 0x5000 1 slabFlags).2

theorem firstPageTables_wellFormed : firstPageTables.WellFormed :=
  (Vmm.emptyTables_mapped kernelHeapStart 0x5000 slabFlags (by decide) (by decide) (by decide)).formed

theorem firstPageTables_supplied (page : Nat) : firstPageTables.Supplied (Vmm.walkPaths page) := by
  have few : (Vmm.walkPaths page).card ≤ 3 := Finset.card_le_three
  have free : 3 ≤ (Vmm.freeFrames firstPageTables.pmm).card := by decide +kernel
  exact (Finset.card_filter_le _ _).trans (few.trans free)

theorem firstPage_pinned : firstPageTables.Pinned true kernelHeapStart :=
  ⟨2 ^ 12, Vmm.requestedLeaf 5 slabFlags, by decide +kernel, fun _ => by decide⟩

theorem secondPage_absent : firstPageTables.mapping (kernelHeapStart + 4096) = none := by
  decide +kernel

theorem secondPage_not_pinned : ¬ firstPageTables.Pinned true (kernelHeapStart + 4096) := by
  rintro ⟨size, entry, mapped, _⟩
  rw [secondPage_absent] at mapped
  cases mapped

theorem checked_firstPage {page : Nat} (checked : Checked (kernelHeapStart + 0xFFF) 2 page) :
    page = kernelHeapStart := by
  have lower : kernelHeapStart ≤ page := checked.2.1
  have upper : page ≤ kernelHeapStart := checked.2.2
  omega

theorem vmmPinPages_pins_iff_firstPage :
    ¬ (∀ after, vmmPinPages (kernelHeapStart + 0xFFF) 2 true (regularHeap 8192 firstPageTables) =
        .ok (0, after) →
      ∀ page, OfBuffer (kernelHeapStart + 0xFFF) 2 page → after.vmm.Pinned true page) ∧
    (∀ after, vmmPinPages kernelHeapStart 4096 true (regularHeap 8192 firstPageTables) =
        .ok (0, after) →
      ∀ page, OfBuffer kernelHeapStart 4096 page → after.vmm.Pinned true page) := by
  have unaligned := vmmPinPages_pins_iff (regularHeap 8192 firstPageTables)
    (kernelHeapStart + 0xFFF) 2 true firstPageTables_wellFormed (by decide)
    (fun page _ => firstPageTables_supplied page)
  have aligned := vmmPinPages_pins_iff (regularHeap 8192 firstPageTables)
    kernelHeapStart 4096 true firstPageTables_wellFormed (by decide)
    (fun page _ => firstPageTables_supplied page)
  constructor
  · intro vouched
    apply secondPage_not_pinned
    apply unaligned.mp vouched (by decide) (by decide)
    intro page checked
    rw [checked_firstPage checked]
    exact firstPage_pinned
  · apply aligned.mpr
    intro _notNull _positive _checked
    exact firstPage_pinned

/-- Two bytes across a page boundary: only the first page is looked at, and 0 is returned
although the second page is not present. -/
theorem vmmPinPages_misses_last_page :
    ∃ after, vmmPinPages (kernelHeapStart + 0xFFF) 2 true (regularHeap 8192 firstPageTables) =
        .ok (0, after) ∧
      OfBuffer (kernelHeapStart + 0xFFF) 2 (kernelHeapStart + 4096) ∧
      after.vmm.mapping (kernelHeapStart + 4096) = none := by
  obtain ⟨result, run, checked⟩ : ∃ result,
      vmmPinPages (kernelHeapStart + 0xFFF) 2 true (regularHeap 8192 firstPageTables) = .ok result ∧
      (result.1 = 0 ∧ result.2.vmm.mapping (kernelHeapStart + 4096) = none) :=
    exists_of_checked _ (by decide +kernel)
  refine ⟨result.2, ?_, ?_, checked.2⟩
  · rw [run, ← checked.1]
  · unfold OfBuffer
    decide

/-! ### Buffers of the heap -/

/-- The buffer lies in regular regions that were allocated with `PT_WRITEABLE`. -/
def InWriteableRegions (vma : Vma) (shape : BinaryTree Nat) (vAddr count : Nat) : Prop :=
  ∀ address, vAddr ≤ address → address < vAddr + count →
    ∃ node ∈ shape.inorder, (vma.region node).type = .regular ∧
      Vmm.flagBit (vma.region node).flags 0 = true ∧ (vma.region node).Covers address

variable {count vAddr : Nat}

/-- A page of the loop that is not present, or not writeable, is refused. -/
theorem HeapTree.vmmPinPages_refuses {vma : Vma} {shape : BinaryTree Nat}
    (heap : vma.HeapTree shape) {searchFuel : Nat}
    (searchEnough : shape.height < searchFuel) (formed : vma.vmm.WellFormed)
    (positive : count ≠ 0) (notNull : 0xFFF ≤ vAddr) (noWrap : vAddr + count < 2 ^ 64)
    (supplied : ∀ page, OfBuffer vAddr count page → vma.vmm.Supplied (Vmm.walkPaths page))
    (missing : ∃ page, Checked vAddr count page ∧ ¬ vma.vmm.Pinned true page) :
    ∃ after, vmmPinPagesWithin searchFuel vAddr count true vma = .ok (-EFAULT, after) := by
  obtain ⟨page, checked, notPinned⟩ := missing
  have fuel := pinFuel_enough noWrap
  rw [vmmPinPagesWithin_loop notNull positive]
  exact pinPages_refused searchEnough pinFuel (startPage vAddr) vma heap formed
    (Nat.mul_mod_left _ _) (endPage_lt noWrap) (by omega)
    (fun other aligned lower upper =>
      supplied other ((ofBuffer_iff positive noWrap other).mpr (Or.inl ⟨aligned, lower, upper⟩)))
    ⟨page, checked.1, checked.2.1, checked.2.2, notPinned⟩

theorem HeapTree.inWriteableRegions_bounds {vma : Vma} {shape : BinaryTree Nat}
    (heap : vma.HeapTree shape)
    (inside : vma.InWriteableRegions shape vAddr count) (positive : count ≠ 0) :
    0xFFF ≤ vAddr ∧ vAddr + count < 2 ^ 64 - 8192 := by
  obtain ⟨first, firstIn, _, _, firstCovers⟩ := inside vAddr (Nat.le_refl _) (by omega)
  obtain ⟨last, lastIn, _, _, lastCovers⟩ := inside (vAddr + count - 1) (by omega) (by omega)
  have lower := (heap.inHeap first firstIn).1
  have upper := (heap.inHeap last lastIn).2
  have user : 0xFFF < kernelHeapStart := by decide
  have limit : kernelHeapLimit < 2 ^ 64 - 8192 := by decide
  have firstCovered := firstCovers.1
  have lastCovered := lastCovers.2
  omega

theorem regularHeap_inWriteableRegions {size : Nat} {vmm : Vmm}
    (lower : kernelHeapStart ≤ vAddr) (upper : vAddr + count ≤ kernelHeapStart + size) :
    (regularHeap size vmm).InWriteableRegions (node 1 nil nil) vAddr count := by
  intro address fromStart toEnd
  have writeable : Vmm.flagBit slabFlags 0 = true := by decide
  refine ⟨1, List.mem_singleton_self 1, rfl, writeable, lower.trans fromStart, ?_⟩
  change address < kernelHeapStart + size
  omega

/-- A buffer in writeable heap regions is pinned exactly when all pages the loop looks at
are present and writeable already; a buffer with a page that is neither present nor in a
regular region is refused exactly when it starts at NULL or one of the pages the loop looks
at is not present and writeable. -/
theorem vmmPinPages_heap_iff (vma : Vma) (shape : BinaryTree Nat) (searchFuel vAddr count : Nat)
    (heap : vma.HeapTree shape) (searchEnough : shape.height < searchFuel)
    (formed : vma.vmm.WellFormed) (noWrap : vAddr + count < 2 ^ 64)
    (supplied : ∀ page, OfBuffer vAddr count page → vma.vmm.Supplied (Vmm.walkPaths page)) :
    (vma.InWriteableRegions shape vAddr count →
      ((∃ after, vmmPinPagesWithin searchFuel vAddr count true vma = .ok (0, after)) ↔
        count ≠ 0 ∧ ∀ page, Checked vAddr count page → vma.vmm.Pinned true page)) ∧
    ((∃ page, OfBuffer vAddr count page ∧ vma.vmm.mapping page = none ∧
        ¬ vma.Pageable shape page) →
      ((∃ after, vmmPinPagesWithin searchFuel vAddr count true vma = .ok (-EFAULT, after)) ↔
        vAddr < 0xFFF ∨ ∃ page, Checked vAddr count page ∧ ¬ vma.vmm.Pinned true page)) := by
  have refuses := fun positive notNull =>
    heap.vmmPinPages_refuses searchEnough formed positive notNull noWrap supplied
  constructor
  · intro inside
    constructor
    · intro returned
      obtain ⟨after, run⟩ := returned
      have notNull : 0xFFF ≤ vAddr := by
        by_contra null
        unfold vmmPinPagesWithin at run
        rw [if_pos (Nat.lt_of_not_le null)] at run
        cases run
      have positive : count ≠ 0 := by
        intro empty
        unfold vmmPinPagesWithin at run
        rw [if_neg (Nat.not_lt_of_le notNull), if_pos empty] at run
        cases run
      refine ⟨positive, ?_⟩
      intro page checked
      by_contra missing
      obtain ⟨other, refused⟩ := refuses positive notNull ⟨page, checked, missing⟩
      rw [run] at refused
      cases refused
    · intro passes
      have bounds := heap.inWriteableRegions_bounds inside passes.1
      apply Exists.intro vma
      apply vmmPinPages_passes searchFuel formed passes.1 bounds.1 noWrap _ passes.2
      rw [endPage_eq noWrap]
      unfold startPage
      omega
  · intro bad
    obtain ⟨page, inBuffer, absent, _irregular⟩ := bad
    have positive : count ≠ 0 := inBuffer.1
    have notPinned : ¬ vma.vmm.Pinned true page := by
      rintro ⟨size, entry, mapped, _⟩
      rw [absent] at mapped
      cases mapped
    constructor
    · intro returned
      obtain ⟨after, run⟩ := returned
      by_contra passes
      rw [not_or, not_exists] at passes
      have notNull : 0xFFF ≤ vAddr := Nat.le_of_not_lt passes.1
      have pinned : ∀ other, Checked vAddr count other → vma.vmm.Pinned true other :=
        fun other checked => not_not.mp (fun missing => passes.2 other ⟨checked, missing⟩)
      have unchecked : ¬ Checked vAddr count page := fun checked => notPinned (pinned page checked)
      -- The page left out is the last one, so the loop ends below the top of the address space.
      have isLast : page = lastPage vAddr count :=
        ((ofBuffer_iff positive noWrap page).mp inBuffer).resolve_left unchecked
      have notTop : endPage vAddr count < 2 ^ 64 - 4096 := by
        unfold Checked at unchecked
        unfold lastPage at isLast
        have start : startPage vAddr ≤ page := by
          unfold startPage
          omega
        have aligned := inBuffer.2.1
        omega
      rw [vmmPinPages_passes searchFuel formed positive notNull noWrap notTop pinned] at run
      cases run
    · intro cause
      by_cases null : vAddr < 0xFFF
      · apply Exists.intro vma
        unfold vmmPinPagesWithin
        rw [if_pos null]
      · exact refuses positive (Nat.le_of_not_lt null) (cause.resolve_left null)

theorem vmmPinPages_heap_iff_firstPage :
    (¬ ∃ after, vmmPinPagesWithin 2 (kernelHeapStart + 4096) 1 true
        (regularHeap 8192 firstPageTables) = .ok (0, after)) ∧
    (¬ ∃ after, vmmPinPagesWithin 2 (kernelHeapStart + 0xFFF) 2 true
        (regularHeap 4096 firstPageTables) = .ok (-EFAULT, after)) := by
  have untouched := vmmPinPages_heap_iff (regularHeap 8192 firstPageTables) (node 1 nil nil) 2
    (kernelHeapStart + 4096) 1 (regularHeap_heapTree 8192 _ (by decide)) (by decide)
    firstPageTables_wellFormed (by decide) (fun page _ => firstPageTables_supplied page)
  have outside := vmmPinPages_heap_iff (regularHeap 4096 firstPageTables) (node 1 nil nil) 2
    (kernelHeapStart + 0xFFF) 2 (regularHeap_heapTree 4096 _ (by decide)) (by decide)
    firstPageTables_wellFormed (by decide) (fun page _ => firstPageTables_supplied page)
  constructor
  · rw [untouched.1 (regularHeap_inWriteableRegions (by decide) (by decide))]
    intro pinned
    exact secondPage_not_pinned (pinned.2 (kernelHeapStart + 4096) (by unfold Checked; decide))
  · rw [outside.2 ⟨kernelHeapStart + 4096, by unfold OfBuffer; decide, secondPage_absent, by decide⟩]
    intro refused
    rcases refused with null | missing
    · exact absurd null (by decide)
    obtain ⟨page, checked, notPinned⟩ := missing
    apply notPinned
    rw [checked_firstPage checked]
    exact firstPage_pinned

/-- The second page of a writeable heap region has not been touched: it is faulted in, and
the buffer is refused all the same. And two bytes across the end of the only region are
accepted. -/
theorem vmmPinPages_refuses_untouched_page :
    (regularHeap 8192 firstPageTables).InWriteableRegions (node 1 nil nil)
      (kernelHeapStart + 4096) 1 ∧
    (∃ after, vmmPinPages (kernelHeapStart + 4096) 1 true (regularHeap 8192 firstPageTables) =
        .ok (-EFAULT, after) ∧
      after.vmm.Pinned true (kernelHeapStart + 4096)) ∧
    (firstPageTables.mapping (kernelHeapStart + 4096) = none ∧
      ¬ (regularHeap 4096 firstPageTables).Pageable (node 1 nil nil) (kernelHeapStart + 4096)) ∧
    ∃ after, vmmPinPages (kernelHeapStart + 0xFFF) 2 true (regularHeap 4096 firstPageTables) =
      .ok (0, after) := by
  refine ⟨regularHeap_inWriteableRegions (by decide) (by decide), ?_,
    ⟨secondPage_absent, by decide⟩, ?_⟩
  · obtain ⟨result, run, checked⟩ : ∃ result,
        vmmPinPages (kernelHeapStart + 4096) 1 true (regularHeap 8192 firstPageTables) =
          .ok result ∧
        (result.1 = -EFAULT ∧ ((result.2.vmm.mapping (kernelHeapStart + 4096)).any
          (fun found => found.2.writeable)) = true) :=
      exists_of_checked _ (by decide +kernel)
    obtain ⟨found, mapped, writeable⟩ := Option.any_eq_true _ _ |>.mp checked.2
    exact ⟨result.2, by rw [run, ← checked.1], found.1, found.2, mapped, fun _ => writeable⟩
  · obtain ⟨result, run, checked⟩ : ∃ result,
        vmmPinPages (kernelHeapStart + 0xFFF) 2 true (regularHeap 4096 firstPageTables) =
          .ok result ∧ result.1 = 0 :=
      exists_of_checked _ (by decide +kernel)
    exact ⟨result.2, by rw [run, ← checked]⟩

end Vma

end Fesos
