/-
What the walk leaves behind.

The walk stores table entries where none was present and clears only frames that were
free.  So present entries outside the free frames stay, whatever the rest of the table
memory holds, and a table that a query had to create is there afterwards.  No
well-formedness of the later states is needed for this: when the manager has run out of
frames, frame 0 is entered as a table and the tables are no tree any more.
-/

import Fesos.VmmFrameZero

set_option autoImplicit false

namespace Fesos
namespace Vmm

/-- Free frames only become fewer, and present entries outside them stay. -/
structure Kept (before after : Vmm) : Prop where
  root : after.pml4 = before.pml4
  size : after.pmm.bitmapSizeFrames = before.pmm.bitmapSizeFrames
  free : freeFrames after.pmm ⊆ freeFrames before.pmm
  entries : ∀ table index, table ∉ freeFrames before.pmm →
    (before.entry table index).present = true → after.entry table index = before.entry table index

theorem Kept.refl (vmm : Vmm) : Kept vmm vmm :=
  { root := rfl
    size := rfl
    free := Finset.Subset.refl _
    entries := fun _ _ _ _ => rfl }

theorem Kept.trans {first second third : Vmm} (left : Kept first second)
    (right : Kept second third) : Kept first third where
  root := right.root.trans left.root
  size := right.size.trans left.size
  free := right.free.trans left.free
  entries := by
    intro table index settled present
    have same := left.entries table index settled present
    rw [← same]
    apply right.entries table index
    · intro free
      exact settled (left.free free)
    · rw [same]
      exact present

variable {index : Fin 512} {table : Nat} {vmm : Vmm}

theorem store_kept (value : PageTableEntry)
    (absent : (vmm.entry table index).present = false) :
    Kept vmm (vmm.storeEntry table index value) where
  root := rfl
  size := rfl
  free := Finset.Subset.refl _
  entries := by
    intro other position _settled present
    rw [storeEntry_entry]
    apply if_neg
    intro both
    rw [both.1, both.2, absent] at present
    cases present

theorem claimed_kept {frame : Nat} (free : frame ∈ freeFrames vmm.pmm) :
    Kept vmm (vmm.claimed frame) where
  root := rfl
  size := PmmOf.claim_size vmm.pmm frame 1
  free := by
    have fewer : freeFrames (vmm.claimed frame).pmm = (freeFrames vmm.pmm).erase frame :=
      freeFrames_claim vmm.pmm frame
    rw [fewer]
    exact Finset.erase_subset _ _
  entries := by
    intro table index settled _present
    apply claimed_entry free
    intro same
    rw [same] at settled
    exact settled free

theorem claimed_absent {frame : Nat}
    (free : frame ∈ freeFrames vmm.pmm) (absent : (vmm.entry table index).present = false) :
    ((vmm.claimed frame).entry table index).present = false := by
  by_cases same : table = frame
  · unfold claimed entry
    rw [PmmOf.claim_ram _ _ _ _ (freeFrames_addressable free), if_pos (by omega)]
    rfl
  · rw [claimed_entry free same]
    exact absent

theorem walk_kept (vmm : Vmm) (table : Nat) (index : Fin 512) :
    Kept vmm (vmm.vmmWalkAndCrateNextTable table index).2 := by
  have step := walk_outcome vmm table index
  generalize vmm.vmmWalkAndCrateNextTable table index = result at step
  cases step with
  | follow present => exact Kept.refl vmm
  | create frame absent free least =>
    exact (claimed_kept free).trans (store_kept _ (claimed_absent free absent))
  | starve absent empty => exact store_kept _ absent

theorem walk_arrives (vmm : Vmm) (table : Nat) (index : Fin 512) :
    ((vmm.vmmWalkAndCrateNextTable table index).2.entry table index).present = true ∧
      ((vmm.vmmWalkAndCrateNextTable table index).2.entry table index).physicalAddress =
        (vmm.vmmWalkAndCrateNextTable table index).1 := by
  have step := walk_outcome vmm table index
  generalize vmm.vmmWalkAndCrateNextTable table index = result at step
  cases step with
  | follow present => exact ⟨present, rfl⟩
  | create frame absent free least =>
    unfold withTable
    rw [storeEntry_entry, if_pos ⟨rfl, rfl⟩]
    exact ⟨rfl, tableEntry_physical vmm.pmm _ free⟩
  | starve absent empty =>
    rw [storeEntry_entry, if_pos ⟨rfl, rfl⟩]
    exact ⟨rfl, rfl⟩

theorem walkTo_kept (vmm : Vmm) (path : List (Fin 512)) : Kept vmm (vmm.walkTo path).2 := by
  induction path with
  | nil => exact Kept.refl vmm
  | cons index parent ih => exact ih.trans (walk_kept _ _ _)

theorem mapPages_kept (flags pages vAddr pAddr : Nat) (vmm : Vmm) :
    Kept vmm (mapPages flags pages vAddr pAddr vmm).2 := by
  induction pages generalizing vAddr pAddr vmm with
  | zero => exact Kept.refl vmm
  | succ pages ih =>
    rw [mapPages_succ]
    split
    · exact walkTo_kept _ _
    · rename_i absent
      exact (walkTo_kept _ _).trans
        ((store_kept _ (Bool.eq_false_iff.mpr absent)).trans (ih _ _ _))

/-! ### Paths that stay -/

/-- The walk along the path goes through present entries outside the free frames. -/
def Anchored (vmm : Vmm) : List (Fin 512) → Nat → Prop
  | [], table => table = vmm.pml4 ∧ table ∉ freeFrames vmm.pmm
  | index :: path, table => ∃ parent, Anchored vmm path parent ∧
      (vmm.entry parent index).present = true ∧
      (vmm.entry parent index).physicalAddress = table ∧ table ∉ freeFrames vmm.pmm

section Anchored

variable {vmm after : Vmm} {path : List (Fin 512)} {table : Nat}

theorem Anchored.settled (anchored : vmm.Anchored path table) : table ∉ freeFrames vmm.pmm := by
  cases path with
  | nil => exact anchored.2
  | cons index parent =>
    obtain ⟨_parentTable, _above, _present, _leads, settled⟩ := anchored
    exact settled

theorem Kept.anchored (kept : Kept vmm after) (anchored : vmm.Anchored path table) :
    after.Anchored path table := by
  induction path generalizing table with
  | nil => exact ⟨anchored.1.trans kept.root.symm, fun free => anchored.2 (kept.free free)⟩
  | cons index parent ih =>
    obtain ⟨parentTable, above, present, leads, settled⟩ := anchored
    have same := kept.entries parentTable index above.settled present
    exact ⟨parentTable, ih above, by rw [same]; exact present, by rw [same]; exact leads,
      fun free => settled (kept.free free)⟩

theorem Anchored.walkTo (anchored : vmm.Anchored path table) : vmm.walkTo path = (table, vmm) := by
  induction path generalizing table with
  | nil => rw [anchored.1]; rfl
  | cons index parent ih =>
    obtain ⟨parentTable, above, present, leads, _settled⟩ := anchored
    simp only [Vmm.walkTo, ih above, vmmWalkAndCrateNextTable, present, leads]
    rfl

theorem WellFormed.settled (formed : vmm.WellFormed) (short : path.length ≤ 3)
    (here : vmm.tableAt path = some table) : table ∉ freeFrames vmm.pmm := by
  intro free
  exact frame_ne_table formed free short here rfl

theorem WellFormed.rootSettled (formed : vmm.WellFormed) : vmm.pml4 ∉ freeFrames vmm.pmm := by
  have root : vmm.tableAt [] = some vmm.pml4 := rfl
  have short : ([] : List (Fin 512)).length ≤ 3 := Nat.zero_le 3
  exact formed.settled short root

theorem WellFormed.anchored (formed : vmm.WellFormed) (short : path.length ≤ 3)
    (here : vmm.tableAt path = some table) : vmm.Anchored path table := by
  induction path generalizing table with
  | nil => exact ⟨(Option.some.inj here).symm, formed.settled short here⟩
  | cons index parent ih =>
    have settled := formed.settled short here
    cases parentAt : vmm.tableAt parent with
    | none =>
      rw [tableAt_below_none parentAt] at here
      cases here
    | some parentTable =>
      rw [tableAt_cons parentAt] at here
      split at here
      · rename_i leads
        cases here
        exact ⟨parentTable, ih (Nat.le_of_succ_le short) parentAt,
          (Bool.and_eq_true_iff.mp leads).1, rfl, settled⟩
      · cases here

/-- The walk ends in a table that stays: in a tree of tables, or with no frame left
that could be cleared. -/
theorem walkTo_anchored (formed : vmm.WellFormed) (path : List (Fin 512)) (short : path.length ≤ 3)
    (small : ∀ entry, vmm.slot path = some entry → entry.hugePage = false) :
    (vmm.walkTo path).2.Anchored path (vmm.walkTo path).1 ∧
      ((Walked vmm (vmm.walkTo path).2 path.length ∧
          (vmm.walkTo path).2.tableAt path = some (vmm.walkTo path).1) ∨
        freeFrames (vmm.walkTo path).2.pmm = ∅) := by
  induction path with
  | nil =>
    exact ⟨⟨rfl, formed.rootSettled⟩, Or.inl ⟨Walked.refl _ formed, rfl⟩⟩
  | cons index parent ih =>
    have parentShort : parent.length ≤ 2 := Nat.le_of_succ_le_succ short
    obtain ⟨anchored, outcome⟩ := ih (by omega)
      (fun entry held => slot_high formed.shaped parentShort held)
    have kept := walk_kept (vmm.walkTo parent).2 (vmm.walkTo parent).1 index
    obtain ⟨present, leads⟩ := walk_arrives (vmm.walkTo parent).2 (vmm.walkTo parent).1 index
    have arrives : (Walked vmm (vmm.walkTo (index :: parent)).2 (index :: parent).length ∧
        (vmm.walkTo (index :: parent)).2.tableAt (index :: parent) =
          some (vmm.walkTo (index :: parent)).1) ∨
        freeFrames (vmm.walkTo (index :: parent)).2.pmm = ∅ := by
      by_cases fed : freeFrames (vmm.walkTo parent).2.pmm = ∅
      · apply Or.inr
        apply Finset.subset_empty.mp
        rw [← fed]
        exact kept.free
      rcases outcome with ⟨walked, atParent⟩ | empty
      · have sameSlot := walked.sameSlot (index :: parent) (Nat.lt_succ_self _)
          (Nat.le_succ_of_le short)
        obtain ⟨step, atPath⟩ := walk_reaches walked.formed parentShort atParent
          (by rw [sameSlot]; exact small) (fun _ => fed)
        exact Or.inl ⟨walked.trans step (Nat.le_succ _), atPath⟩
      · exact absurd empty fed
    refine ⟨⟨(vmm.walkTo parent).1, kept.anchored anchored, present, leads, ?_⟩, arrives⟩
    rcases arrives with ⟨walked, atPath⟩ | empty
    · exact walked.formed.settled short atPath
    · rw [show (vmm.walkTo (index :: parent)).2 = _ from rfl] at empty
      rw [empty]
      exact Finset.notMem_empty _

end Anchored

/-! ### What an address is mapped to -/

/-- The size of the page an address lies in, and the present entry that maps it: the
walk of the processor, which stops at huge pages. -/
def mapping (vmm : Vmm) (vAddr : Nat) : Option (Nat × PageTableEntry) :=
  match vmm.slot (pdPath vAddr) with
  | none => none
  | some pointer =>
    if pointer.hugePage then some (2 ^ 30, pointer)
    else
      match vmm.slot (ptPath vAddr) with
      | none => none
      | some directory =>
        if directory.hugePage then some (2 ^ 21, directory)
        else (vmm.leaf vAddr).map (fun entry => (2 ^ 12, entry))

/-! ### Operations without effect -/

def Untouched (before after : Vmm) : Prop :=
  after.pmm.bitmap = before.pmm.bitmap ∧
    ∀ path table index, path.length ≤ 3 → before.tableAt path = some table →
      after.entry table index = before.entry table index

def Complete (vmm : Vmm) (path : List (Fin 512)) : Prop := vmm.tableAt path ≠ none

instance (vmm : Vmm) (path : List (Fin 512)) : Decidable (vmm.Complete path) :=
  inferInstanceAs (Decidable (_ ≠ _))

theorem Untouched.refl (vmm : Vmm) : Untouched vmm vmm := ⟨rfl, fun _ _ _ _ _ => rfl⟩

theorem complete_of_present {path : List (Fin 512)}
    (here : vmm.tableAt path = some table) (present : (vmm.entry table index).present = true)
    (small : ∀ entry, vmm.slot (index :: path) = some entry → entry.hugePage = false) :
    vmm.Complete (index :: path) := by
  have held : vmm.slot (index :: path) = some (vmm.entry table index) := by
    rw [slot_cons here, if_pos present]
  unfold Complete
  rw [tableAt_cons here, PageTableEntry.isTable, present, small _ held]
  exact Option.some_ne_none _

section

variable (formed : vmm.WellFormed) (path : List (Fin 512)) (short : path.length ≤ 3)
  (small : ∀ entry, vmm.slot path = some entry → entry.hugePage = false)

include formed path short small

/-- A walk along missing tables leaves an entry in a table that was there before. -/
theorem walkTo_leaves_entry
    (missing : ¬ vmm.Complete path) :
    ∃ above table index, above.length ≤ 3 ∧ vmm.tableAt above = some table ∧
      (vmm.entry table index).present = false ∧
      ((vmm.walkTo path).2.entry table index).present = true := by
  induction path with
  | nil => exact absurd (Option.some_ne_none _) missing
  | cons index parent ih =>
    have parentShort : parent.length ≤ 2 := Nat.le_of_succ_le_succ short
    cases parentAt : vmm.tableAt parent with
    | none =>
      obtain ⟨above, table, position, aboveShort, here, absent, present⟩ := ih (by omega)
        (fun entry held => slot_high formed.shaped parentShort held)
        (fun complete => complete parentAt)
      have settled := formed.settled aboveShort here
      have kept := walk_kept (vmm.walkTo parent).2 (vmm.walkTo parent).1 index
      have still := kept.entries table position
        (fun free => settled ((walkTo_kept vmm parent).free free)) present
      refine ⟨above, table, position, aboveShort, here, absent, ?_⟩
      exact (congrArg PageTableEntry.present still).trans present
    | some table =>
      refine ⟨parent, table, index, by omega, parentAt, ?_, ?_⟩
      · by_contra present
        rw [Bool.not_eq_false] at present
        exact missing (complete_of_present parentAt present small)
      · have arrives := (walk_arrives (vmm.walkTo parent).2 (vmm.walkTo parent).1 index).1
        rw [walkTo_existing parent parentAt] at arrives
        simp only [walkTo, walkTo_existing parent parentAt]
        exact arrives

/-- A walk along missing tables takes a frame, if there is one. -/
theorem walkTo_takes
    (fed : freeFrames vmm.pmm ≠ ∅) (missing : ¬ vmm.Complete path) :
    ¬ freeFrames vmm.pmm ⊆ freeFrames (vmm.walkTo path).2.pmm := by
  induction path with
  | nil => exact absurd (Option.some_ne_none _) missing
  | cons index parent ih =>
    have parentShort : parent.length ≤ 2 := Nat.le_of_succ_le_succ short
    intro same
    cases parentAt : vmm.tableAt parent with
    | none =>
      apply ih (by omega) (fun entry held => slot_high formed.shaped parentShort held)
        (fun complete => complete parentAt)
      exact same.trans (walk_kept (vmm.walkTo parent).2 (vmm.walkTo parent).1 index).free
    | some table =>
      have absent : (vmm.entry table index).present = false := by
        by_contra present
        rw [Bool.not_eq_false] at present
        exact missing (complete_of_present parentAt present small)
      simp only [walkTo, walkTo_existing parent parentAt] at same
      have step := walk_outcome vmm table index
      generalize vmm.vmmWalkAndCrateNextTable table index = result at step same
      cases step with
      | follow present =>
        rw [present] at absent
        cases absent
      | create frame _absent free least =>
        have stays := same free
        rw [withTable_freeFrames] at stays
        exact Finset.notMem_erase _ _ stays
      | starve _absent empty => exact fed empty

end

theorem ptPath_short (vAddr : Nat) : (ptPath vAddr).length ≤ 3 := Nat.le_refl 3

theorem pdPath_short (vAddr : Nat) : (pdPath vAddr).length ≤ 2 := Nat.le_refl 2

theorem pd_small (formed : vmm.WellFormed) {vAddr : Nat} (entry : PageTableEntry)
    (held : vmm.slot (pdPath vAddr) = some entry) : entry.hugePage = false :=
  slot_high formed.shaped (pdPath_short vAddr) held

/-! ### Queries -/

section Queries

variable {vmm : Vmm}

theorem queried_kept (vmm : Vmm) (vAddr : Nat) :
    Kept (vmm.walkTo (pdPath vAddr)).2 (vmm.queried vAddr) := by
  unfold queried
  split
  · exact Kept.refl _
  · exact walk_kept _ _ _

theorem queried_small {vAddr : Nat} (formed : vmm.WellFormed) (small : vmm.hugeAt vAddr = false)
    {pd : Nat} (atPd : vmm.tableAt (pdPath vAddr) = some pd) :
    vmm.queried vAddr = (vmm.walkTo (ptPath vAddr)).2 := by
  have entry := hugePage_at_pd (Walked.refl 2 formed) atPd
  unfold queried
  rw [walkToPd_eq, walkTo_existing _ atPd, entry, small]
  rfl

/-- A query has no effect exactly when it needs no new table. -/
theorem queried_untouched_iff (formed : vmm.WellFormed) (vAddr : Nat) :
    Untouched vmm (vmm.queried vAddr) ↔
      (vmm.hugeAt vAddr = true ∨ vmm.Complete (ptPath vAddr)) := by
  constructor
  · intro untouched
    by_contra incomplete
    have small : vmm.hugeAt vAddr = false :=
      Bool.eq_false_iff.mpr (fun huge => incomplete (Or.inl huge))
    have missing : ¬ vmm.Complete (ptPath vAddr) := fun complete => incomplete (Or.inr complete)
    cases atPd : vmm.tableAt (pdPath vAddr) with
    | some pd =>
      rw [queried_small formed small atPd] at untouched
      obtain ⟨above, table, index, short, here, absent, present⟩ :=
        walkTo_leaves_entry formed (ptPath vAddr) (ptPath_short vAddr)
          (fun entry held => slot_of_not_huge small held) missing
      rw [untouched.2 above table index short here, absent] at present
      cases present
    | none =>
      obtain ⟨above, table, index, short, here, absent, present⟩ :=
        walkTo_leaves_entry formed (pdPath vAddr) (Nat.le_succ_of_le (pdPath_short vAddr))
          (pd_small formed) (fun complete => complete atPd)
      have settled := formed.settled short here
      have still := (queried_kept vmm vAddr).entries table index
        (fun free => settled ((walkTo_kept vmm (pdPath vAddr)).free free)) present
      rw [untouched.2 above table index short here] at still
      rw [← still, absent] at present
      cases present
  · intro complete
    have same : vmm.queried vAddr = vmm := by
      by_cases huge : vmm.hugeAt vAddr = true
      · obtain ⟨same, isHuge⟩ := walkToPd_of_huge formed huge
        unfold queried
        rw [if_pos isHuge, same]
      have there : vmm.Complete (ptPath vAddr) := complete.resolve_left huge
      obtain ⟨pt, atPt⟩ := Option.ne_none_iff_exists'.mp there
      cases atPd : vmm.tableAt (pdPath vAddr) with
      | none =>
        have missing : vmm.tableAt (ptPath vAddr) = none := tableAt_below_none atPd
        exact absurd missing there
      | some pd =>
        rw [queried_small formed (Bool.eq_false_iff.mpr huge) atPd, walkTo_existing _ atPt]
    rw [same]
    exact Untouched.refl vmm

end Queries

/-! ### Unmapping what is not mapped -/

structure Alike (before after : Vmm) : Prop where
  root : after.pml4 = before.pml4
  size : after.pmm.bitmapSizeFrames = before.pmm.bitmapSizeFrames
  bitmap : after.pmm.bitmap = before.pmm.bitmap
  entries : ∀ table index, after.entry table index = before.entry table index

namespace Alike

theorem refl (vmm : Vmm) : Alike vmm vmm := ⟨rfl, rfl, rfl, fun _ _ => rfl⟩

theorem trans {first second third : Vmm} (left : Alike first second) (right : Alike second third) :
    Alike first third :=
  { root := right.root.trans left.root
    size := right.size.trans left.size
    bitmap := right.bitmap.trans left.bitmap
    entries := fun table index => (right.entries table index).trans (left.entries table index) }

variable {after before : Vmm}

theorem untouched (alike : Alike before after) : Untouched before after :=
  ⟨alike.bitmap, fun _ table index _ _ => alike.entries table index⟩

theorem used (alike : Alike before after) (frame : Nat) :
    after.pmm.used frame = before.pmm.used frame := by
  unfold PmmOf.used
  rw [alike.bitmap]

theorem wellFormed (alike : Alike before after) (formed : before.WellFormed) :
    after.WellFormed := by
  have shaped := Shaped.congr alike.root alike.entries formed.shaped
  refine
    { distinct := shaped.distinct
      used := ?_
      absentZero := shaped.absentZero
      noHuge := shaped.noHuge }
  intro path table short here
  rw [tableAt_congr alike.root alike.entries] at here
  rw [alike.size, alike.used]
  exact formed.used path table short here

end Alike

theorem unmapPages_free (pages vAddr : Nat) (vmm : Vmm) :
    freeFrames (unmapPages pages vAddr vmm).pmm ⊆ freeFrames vmm.pmm := by
  induction pages generalizing vAddr vmm with
  | zero => exact Finset.Subset.refl _
  | succ pages ih =>
    have toPd := (walkTo_kept vmm (pdPath vAddr)).free
    simp only [unmapPages]
    split
    · exact (ih _ _).trans toPd
    · exact (ih _ _).trans ((walk_kept _ _ _).free.trans toPd)

section Unmap

variable {vmm : Vmm} {vAddr : Nat}

theorem clear_alike (formed : vmm.WellFormed) {path : List (Fin 512)} {table : Nat}
    {index : Fin 512} (short : path.length ≤ 3) (here : vmm.tableAt path = some table)
    (absent : (vmm.entry table index).present = false) :
    Alike vmm (vmm.storeEntry table index PageTableEntry.zero) where
  root := rfl
  size := rfl
  bitmap := rfl
  entries := by
    intro other position
    rw [storeEntry_entry]
    by_cases cleared : other = table ∧ position = index
    · rw [if_pos cleared, cleared.1, cleared.2]
      exact (formed.absentZero path table index short here absent).symm
    · rw [if_neg cleared]

theorem unmapPages_existing (formed : vmm.WellFormed) (small : vmm.hugeAt vAddr = false) {pt : Nat}
    (atPt : vmm.tableAt (ptPath vAddr) = some pt) (pages : Nat) :
    unmapPages (pages + 1) vAddr vmm = unmapPages pages (word (vAddr + 0x1000))
      (vmm.storeEntry pt (ptIndex vAddr) PageTableEntry.zero) := by
  cases atPd : vmm.tableAt (pdPath vAddr) with
  | none =>
    have missing : vmm.tableAt (ptPath vAddr) = none := tableAt_below_none atPd
    rw [atPt] at missing
    cases missing
  | some pd =>
    have entry := hugePage_at_pd (Walked.refl 2 formed) atPd
    have toPt : vmm.walkToPt vAddr = (pt, vmm) := walkTo_existing _ atPt
    rw [unmapPages_small (by rw [walkToPd_eq, walkTo_existing _ atPd, entry, small]), toPt]

theorem ptPath_congr {left right : Nat} (same : page left = page right) :
    ptPath left = ptPath right :=
  ((page_eq_iff left right).mp same).1

theorem unmapPages_alike (pages vAddr : Nat) (vmm : Vmm) (formed : vmm.WellFormed)
    (small : ∀ offset < pages, vmm.hugeAt (vAddr + 4096 * offset) = false)
    (absent : ∀ offset < pages, vmm.leaf (vAddr + 4096 * offset) = none)
    (complete : ∀ offset < pages, vmm.Complete (ptPath (vAddr + 4096 * offset))) :
    Alike vmm (unmapPages pages vAddr vmm) := by
  induction pages generalizing vAddr vmm with
  | zero => exact Alike.refl vmm
  | succ pages ih =>
    have smallHere : vmm.hugeAt vAddr = false := by simpa using small 0 (by omega)
    have absentHere : vmm.leaf vAddr = none := by simpa using absent 0 (by omega)
    have completeHere : vmm.Complete (ptPath vAddr) := by simpa using complete 0 (by omega)
    obtain ⟨pt, atPt⟩ := Option.ne_none_iff_exists'.mp completeHere
    have cleared : (vmm.entry pt (ptIndex vAddr)).present = false := by
      by_contra present
      rw [Bool.not_eq_false] at present
      unfold leaf at absentHere
      rw [slot_cons atPt, if_pos present] at absentHere
      cases absentHere
    have alike := clear_alike formed (ptPath_short vAddr) atPt cleared
    rw [unmapPages_existing formed smallHere atPt]
    apply alike.trans
    apply ih _ _ (alike.wellFormed formed)
    · intro offset inRange
      rw [hugeAt_congr _ (page_later vAddr offset)]
      unfold hugeAt
      rw [slot_congr alike.root alike.entries]
      exact small (offset + 1) (by omega)
    · intro offset inRange
      rw [leaf_congr _ (page_later vAddr offset)]
      unfold leaf
      rw [slot_congr alike.root alike.entries]
      exact absent (offset + 1) (by omega)
    · intro offset inRange
      unfold Complete
      rw [ptPath_congr (page_later vAddr offset), tableAt_congr alike.root alike.entries]
      exact complete (offset + 1) (by omega)

/-- Unmapping below missing tables takes a frame, if there is one. -/
theorem unmapPages_takes (pages vAddr : Nat) (vmm : Vmm) (formed : vmm.WellFormed)
    (small : ∀ offset < pages, vmm.hugeAt (vAddr + 4096 * offset) = false)
    (fed : freeFrames vmm.pmm ≠ ∅)
    (missing : ∃ offset < pages, ¬ vmm.Complete (ptPath (vAddr + 4096 * offset))) :
    ¬ freeFrames vmm.pmm ⊆ freeFrames (unmapPages pages vAddr vmm).pmm := by
  induction pages generalizing vAddr vmm with
  | zero =>
    obtain ⟨offset, inRange, _⟩ := missing
    exact absurd inRange (Nat.not_lt_zero _)
  | succ pages ih =>
    have smallHere : vmm.hugeAt vAddr = false := by simpa using small 0 (by omega)
    intro same
    cases atPt : vmm.tableAt (ptPath vAddr) with
    | some pt =>
      have walked := Walked.refl 3 formed
      have next := store_at_pt walked atPt PageTableEntry.zero (Or.inr rfl)
      have terminal : vmm.Terminal (ptPath vAddr) pt (ptIndex vAddr) PageTableEntry.zero :=
        Or.inl rfl
      rw [unmapPages_existing formed smallHere atPt] at same
      refine ih _ _ next.formed ?_ fed ?_ same
      · intro offset inRange
        rw [next.sameHuge, hugeAt_congr _ (page_later vAddr offset)]
        exact small (offset + 1) (by omega)
      · obtain ⟨offset, inRange, incomplete⟩ := missing
        cases offset with
        | zero =>
          rw [Nat.mul_zero, Nat.add_zero] at incomplete
          exact absurd (fun none => by rw [atPt] at none; cases none) incomplete
        | succ offset =>
          refine ⟨offset, by omega, ?_⟩
          unfold Complete at incomplete ⊢
          rw [ptPath_congr (page_later vAddr offset),
            storeSlot_tableAt formed.shaped (ptPath_short vAddr) atPt terminal _
              (ptPath_short _)]
          exact incomplete
    | none =>
      cases atPd : vmm.tableAt (pdPath vAddr) with
      | none =>
        apply walkTo_takes formed (pdPath vAddr) (Nat.le_succ_of_le (pdPath_short vAddr))
          (pd_small formed) fed (fun complete => complete atPd)
        apply same.trans
        simp only [unmapPages]
        split
        · exact unmapPages_free _ _ _
        · exact (unmapPages_free _ _ _).trans (walk_kept _ _ _).free
      | some pd =>
        have entry := hugePage_at_pd (Walked.refl 2 formed) atPd
        rw [unmapPages_small
          (by rw [walkToPd_eq, walkTo_existing _ atPd, entry, smallHere])] at same
        apply walkTo_takes formed (ptPath vAddr) (ptPath_short vAddr)
          (fun entry held => slot_of_not_huge smallHere held) fed
          (fun complete => complete atPt)
        exact same.trans (unmapPages_free _ _ _)

end Unmap

theorem untouched_free {before after : Vmm} (kept : after.pmm.bitmapSizeFrames =
    before.pmm.bitmapSizeFrames) (untouched : Untouched before after) :
    freeFrames before.pmm ⊆ freeFrames after.pmm := by
  intro frame free
  rw [mem_freeFrames] at free ⊢
  unfold PmmOf.used at free ⊢
  rw [kept, untouched.1]
  exact free

theorem unmapPages_size (pages vAddr : Nat) (vmm : Vmm) :
    (unmapPages pages vAddr vmm).pmm.bitmapSizeFrames = vmm.pmm.bitmapSizeFrames := by
  induction pages generalizing vAddr vmm with
  | zero => rfl
  | succ pages ih =>
    have toPd := (walkTo_kept vmm (pdPath vAddr)).size
    simp only [unmapPages]
    split
    · exact (ih _ _).trans toPd
    · exact (ih _ _).trans ((walk_kept _ _ _).size.trans toPd)

/-- Queries, and `vmm_unmap` of pages that are not mapped, leave the bitmap and the tables
alone exactly when the tables on their way exist already.  With no frame left at all,
`vmm_unmap` is only said to be without effect if they do: what its walk through frame 0
clears then depends on the contents of that frame. -/
theorem vmm_queries_untouched_iff (vmm : Vmm) (formed : vmm.WellFormed) :
    (∀ vAddr, Untouched vmm (vmm.vmmGetPhysicalFromVirtual vAddr).2 ↔
      (vmm.hugeAt vAddr = true ∨ vmm.Complete (ptPath vAddr))) ∧
    (∀ vAddr, Untouched vmm (vmm.vmmGetPte vAddr).2 ↔
      (vmm.hugeAt vAddr = true ∨ vmm.Complete (ptPath vAddr))) ∧
    (∀ vAddr pages,
      (∀ offset < pages, vmm.leaf (vAddr + 4096 * offset) = none) →
      (∀ offset < pages, vmm.hugeAt (vAddr + 4096 * offset) = false) →
      (freeFrames vmm.pmm ≠ ∅ ∨
        ∀ offset < pages, vmm.Complete (ptPath (vAddr + 4096 * offset))) →
      (Untouched vmm (vmm.vmmUnmap vAddr pages).2 ↔
        ∀ offset < pages, vmm.Complete (ptPath (vAddr + 4096 * offset)))) := by
  refine ⟨?_, ?_, ?_⟩
  · intro vAddr
    rw [vmmGetPhysicalFromVirtual_state]
    exact queried_untouched_iff formed vAddr
  · intro vAddr
    rw [vmmGetPte_state]
    exact queried_untouched_iff formed vAddr
  · intro vAddr pages absent small fed
    have loop : (vmm.vmmUnmap vAddr pages).2 = unmapPages pages vAddr vmm := by
      unfold vmmUnmap
      split
      · rename_i none
        rw [none]
        rfl
      · rfl
    rw [loop]
    constructor
    · intro untouched offset inRange
      by_contra missing
      have someFree := fed.resolve_right (fun complete => missing (complete offset inRange))
      exact unmapPages_takes pages vAddr vmm formed small someFree ⟨offset, inRange, missing⟩
        (untouched_free (unmapPages_size pages vAddr vmm) untouched)
    · intro complete
      exact (unmapPages_alike pages vAddr vmm formed small absent complete).untouched

theorem vmm_queries_untouched_iff_emptyTables :
    ¬ Untouched emptyTables (emptyTables.vmmGetPhysicalFromVirtual 0x1000).2 ∧
    ¬ Untouched emptyTables (emptyTables.vmmGetPte 0x1000).2 ∧
    ¬ Untouched emptyTables (emptyTables.vmmUnmap 0x1000 2).2 := by
  obtain ⟨translate, pte, unmap⟩ := vmm_queries_untouched_iff emptyTables emptyTables_wellFormed
  have missing : ¬ (emptyTables.hugeAt 0x1000 = true ∨ emptyTables.Complete (ptPath 0x1000)) := by
    decide
  have fed : freeFrames emptyTables.pmm ≠ ∅ := by decide
  refine ⟨fun untouched => missing ((translate _).mp untouched),
    fun untouched => missing ((pte _).mp untouched), ?_⟩
  intro untouched
  have complete := (unmap 0x1000 2 (fun _ _ => rfl) (fun _ _ => rfl) (Or.inl fed)).mp untouched
  exact missing (Or.inr (complete 0 (by decide)))

/-- On an empty root table, asking for the translation of an unmapped address takes three
frames and enters a table, and unmapping two unmapped pages does the same. -/
theorem vmm_query_takes_frames :
    emptyTables.WellFormed ∧ emptyTables.mapping 0x1000 = none ∧
    freeFrames emptyTables.pmm = {2, 3, 4, 5, 6, 7} ∧
    freeFrames (emptyTables.vmmGetPhysicalFromVirtual 0x1000).2.pmm = {5, 6, 7} ∧
    ¬ Untouched emptyTables (emptyTables.vmmGetPhysicalFromVirtual 0x1000).2 ∧
    ¬ Untouched emptyTables (emptyTables.vmmGetPte 0x1000).2 ∧
    ¬ Untouched emptyTables (emptyTables.vmmUnmap 0x1000 2).2 := by
  have root : emptyTables.tableAt [] = some 1 := rfl
  have absent : (emptyTables.entry 1 0).present = false := rfl
  refine ⟨emptyTables_wellFormed, rfl, by decide, by decide +kernel, ?_, ?_, ?_⟩
  · intro untouched
    have present : ((emptyTables.vmmGetPhysicalFromVirtual 0x1000).2.entry 1 0).present = true := by
      decide +kernel
    rw [untouched.2 [] 1 0 (by decide) root, absent] at present
    cases present
  · intro untouched
    have present : ((emptyTables.vmmGetPte 0x1000).2.entry 1 0).present = true := by
      decide +kernel
    rw [untouched.2 [] 1 0 (by decide) root, absent] at present
    cases present
  · intro untouched
    have present : ((emptyTables.vmmUnmap 0x1000 2).2.entry 1 0).present = true := by
      decide +kernel
    rw [untouched.2 [] 1 0 (by decide) root, absent] at present
    cases present

end Vmm
end Fesos
