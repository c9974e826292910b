/-
The page tables as a tree of tables addressed by paths.

A path lists the indices of a walk with the last one first, so the parent of
`index :: path` is `path` and the root table is at `[]`.  The same list names a
slot, entry `index` of the table at `path`.  In a well-formed state the tables at
paths of length at most three are distinct, used frames whose absent entries are
zero, and huge pages stand in page directories only.  One step of the walk either
follows an entry or creates exactly one table, and changes no other slot.
-/

import Fesos.Vmm

set_option autoImplicit false

namespace Fesos

def PageTableEntry.isTable (entry : PageTableEntry) : Bool := entry.present && !entry.hugePage

theorem PageTableEntry.isTable_of_absent {entry : PageTableEntry} (absent : entry.present = false) :
    entry.isTable = false := by
  unfold isTable
  rw [absent, Bool.false_and]

namespace Vmm

/-- The table reached by a path of entries that lead to tables. -/
def tableAt (vmm : Vmm) : List (Fin 512) → Option Nat
  | [] => some vmm.pml4
  | index :: path =>
    match tableAt vmm path with
    | none => none
    | some table =>
      if (vmm.entry table index).isTable then
        some (vmm.entry table index).physicalAddress
      else none

def slot (vmm : Vmm) : List (Fin 512) → Option PageTableEntry
  | [] => none
  | index :: path =>
    match vmm.tableAt path with
    | none => none
    | some table =>
      if (vmm.entry table index).present then some (vmm.entry table index) else none

/-- The path of the page table that holds an address's leaf, and the slot of its
directory entry. -/
def ptPath (vAddr : Nat) : List (Fin 512) :=
  [pdIndex vAddr, pdptIndex vAddr, pml4Index vAddr]

def leaf (vmm : Vmm) (vAddr : Nat) : Option PageTableEntry :=
  vmm.slot (ptIndex vAddr :: ptPath vAddr)

def hugeAt (vmm : Vmm) (vAddr : Nat) : Bool :=
  match vmm.slot (ptPath vAddr) with
  | none => false
  | some entry => entry.hugePage

/-- Each table frame is referenced by exactly one entry and marked used, absent
entries are zero, and only entries of page directories may be huge pages. -/
structure WellFormed (vmm : Vmm) : Prop where
  distinct : ∀ left right table, left.length ≤ 3 → right.length ≤ 3 →
    vmm.tableAt left = some table → vmm.tableAt right = some table → left = right
  used : ∀ path table, path.length ≤ 3 → vmm.tableAt path = some table →
    table < vmm.pmm.bitmapSizeFrames ∧ vmm.pmm.used table = true
  absentZero : ∀ path table index, path.length ≤ 3 → vmm.tableAt path = some table →
    (vmm.entry table index).present = false → vmm.entry table index = PageTableEntry.zero
  noHuge : ∀ path table index, path.length ≤ 1 → vmm.tableAt path = some table →
    (vmm.entry table index).hugePage = false

/-- The part of well-formedness that only the table memory decides. -/
structure Shaped (vmm : Vmm) : Prop where
  distinct : ∀ left right table, left.length ≤ 3 → right.length ≤ 3 →
    vmm.tableAt left = some table → vmm.tableAt right = some table → left = right
  absentZero : ∀ path table index, path.length ≤ 3 → vmm.tableAt path = some table →
    (vmm.entry table index).present = false → vmm.entry table index = PageTableEntry.zero
  noHuge : ∀ path table index, path.length ≤ 1 → vmm.tableAt path = some table →
    (vmm.entry table index).hugePage = false

variable {vmm : Vmm}

theorem WellFormed.shaped (formed : vmm.WellFormed) : vmm.Shaped :=
  { distinct := formed.distinct
    absentZero := formed.absentZero
    noHuge := formed.noHuge }

def freeFrames (pmm : Pmm) : Finset Nat :=
  (Finset.range pmm.bitmapSizeFrames).filter (fun frame => pmm.used frame = false)

def missingTables (vmm : Vmm) (paths : Finset (List (Fin 512))) : Finset (List (Fin 512)) :=
  paths.filter (fun path => vmm.tableAt path = none)

def Supplied (vmm : Vmm) (paths : Finset (List (Fin 512))) : Prop :=
  (vmm.missingTables paths).card ≤ (freeFrames vmm.pmm).card

section Slots

variable {vmm : Vmm} {path : List (Fin 512)} {table : Nat} {index : Fin 512}

theorem tableAt_cons (here : vmm.tableAt path = some table) :
    vmm.tableAt (index :: path) =
      if (vmm.entry table index).isTable then some (vmm.entry table index).physicalAddress
      else none := by
  simp only [tableAt, here]

theorem slot_cons (here : vmm.tableAt path = some table) :
    vmm.slot (index :: path) =
      if (vmm.entry table index).present then some (vmm.entry table index) else none := by
  simp only [slot, here]

theorem tableAt_below_none (missing : vmm.tableAt path = none) :
    vmm.tableAt (index :: path) = none := by
  simp only [tableAt, missing]

theorem slot_below_none (missing : vmm.tableAt path = none) : vmm.slot (index :: path) = none := by
  simp only [slot, missing]

theorem slot_high (shaped : vmm.Shaped) (short : path.length ≤ 2) {entry : PageTableEntry}
    (held : vmm.slot path = some entry) : entry.hugePage = false := by
  cases path with
  | nil => cases held
  | cons index parent =>
    have parentShort : parent.length ≤ 1 := Nat.le_of_succ_le_succ short
    cases parentAt : vmm.tableAt parent with
    | none =>
      rw [slot_below_none parentAt] at held
      cases held
    | some table =>
      rw [slot_cons parentAt] at held
      split at held
      · cases held
        exact shaped.noHuge parent table index parentShort parentAt
      · cases held

theorem slot_of_not_huge {vAddr : Nat} (small : vmm.hugeAt vAddr = false) {entry : PageTableEntry}
    (held : vmm.slot (ptPath vAddr) = some entry) : entry.hugePage = false := by
  unfold hugeAt at small
  rw [held] at small
  exact small

end Slots

section Memory

variable {left right : Vmm} (root : left.pml4 = right.pml4)
  (memory : ∀ table index, left.entry table index = right.entry table index)

include root memory

theorem tableAt_congr (path : List (Fin 512)) : left.tableAt path = right.tableAt path := by
  induction path with
  | nil => exact congrArg some root
  | cons index parent ih =>
    cases parentAt : right.tableAt parent with
    | none => rw [tableAt_below_none (ih.trans parentAt), tableAt_below_none parentAt]
    | some table => rw [tableAt_cons (ih.trans parentAt), tableAt_cons parentAt, memory]

theorem slot_congr (path : List (Fin 512)) : left.slot path = right.slot path := by
  cases path with
  | nil => rfl
  | cons index parent =>
    have sameParent := tableAt_congr root memory parent
    cases parentAt : right.tableAt parent with
    | none => rw [slot_below_none (sameParent.trans parentAt), slot_below_none parentAt]
    | some table => rw [slot_cons (sameParent.trans parentAt), slot_cons parentAt, memory]

theorem Shaped.congr (shaped : right.Shaped) : left.Shaped where
  distinct := by
    intro first second table firstShort secondShort atFirst atSecond
    rw [tableAt_congr root memory] at atFirst atSecond
    exact shaped.distinct first second table firstShort secondShort atFirst atSecond
  absentZero := by
    intro path table index short here
    rw [tableAt_congr root memory] at here
    rw [memory]
    exact shaped.absentZero path table index short here
  noHuge := by
    intro path table index short here
    rw [tableAt_congr root memory] at here
    rw [memory]
    exact shaped.noHuge path table index short here

end Memory

/-! ### Entry stores -/

theorem storeEntry_freeFrames (vmm : Vmm) (table : Nat) (index : Fin 512)
    (value : PageTableEntry) :
    freeFrames (vmm.storeEntry table index value).pmm = freeFrames vmm.pmm := rfl

theorem storeEntry_entry (vmm : Vmm) (table other : Nat) (index position : Fin 512)
    (value : PageTableEntry) :
    (vmm.storeEntry table index value).entry other position =
      if other = table ∧ position = index then value else vmm.entry other position := by
  unfold entry storeEntry
  by_cases sameTable : other = table
  · subst other
    by_cases sameIndex : position = index
    · subst position
      simp
    · simp [sameIndex]
  · simp [sameTable]

/-! ### Allocating the frame of a table -/

variable {frame table : Nat}

theorem mem_freeFrames {pmm : Pmm} :
    frame ∈ freeFrames pmm ↔ frame < pmm.bitmapSizeFrames ∧ pmm.used frame = false := by
  unfold freeFrames
  rw [Finset.mem_filter, Finset.mem_range]

/-- A single-frame request is refused only when no frame is free. -/
theorem allocate_one_cases (pmm : Pmm) :
    (∃ frame, frame ∈ freeFrames pmm ∧
      (∀ earlier < frame, earlier ∉ freeFrames pmm) ∧
      pmm.pmmAllocateFrames 1 4096 = (frame * 4096, pmm.claim frame 1)) ∨
    (freeFrames pmm = ∅ ∧ pmm.pmmAllocateFrames 1 4096 = (0, pmm)) := by
  have step : PmmOf.frameStep 4096 = 1 := by decide
  have free_iff : ∀ frame, pmm.RunFree frame 1 ↔ frame ∈ freeFrames pmm := by
    intro frame
    rw [pmm.runFree_one, mem_freeFrames]
  have outcome := pmm.pmmAllocateFrames_outcome 1 4096 (by decide) (by decide) (by decide)
  rw [step] at outcome
  generalize answer : pmm.pmmAllocateFrames 1 4096 = result at outcome
  cases outcome with
  | found start _later _aligned free least =>
    refine Or.inl ⟨start, (free_iff start).mp free, ?_, rfl⟩
    intro earlier before member
    exact least earlier (Nat.zero_le _) before (Nat.mod_one _) ((free_iff earlier).mpr member)
  | exhausted nothing =>
    refine Or.inr ⟨?_, rfl⟩
    apply Finset.eq_empty_of_forall_notMem
    intro frame member
    exact nothing frame (Nat.zero_le _) (Nat.mod_one _) ((free_iff frame).mpr member)

theorem freeFrames_claim (pmm : Pmm) (frame : Nat) :
    freeFrames (pmm.claim frame 1) = (freeFrames pmm).erase frame := by
  ext other
  unfold freeFrames
  simp only [Finset.mem_filter, Finset.mem_range, Finset.mem_erase, PmmOf.claim_size,
    PmmOf.claim_used, Bool.or_eq_false_iff, decide_eq_false_iff_not]
  have single : ¬ (frame ≤ other ∧ other < frame + 1) ↔ other ≠ frame := by omega
  rw [single]
  tauto

/-! ### Stores that leave the tree of tables alone -/

section StoreSlot

variable {vmm : Vmm} {path : List (Fin 512)} {table : Nat} {index : Fin 512}
  {value : PageTableEntry}

/-- The stored slot leads to no table, before and after. -/
def Terminal (vmm : Vmm) (path : List (Fin 512)) (table : Nat) (index : Fin 512)
    (value : PageTableEntry) : Prop :=
  path.length = 3 ∨ ((vmm.entry table index).isTable = false ∧ value.isTable = false)

section

variable (shaped : vmm.Shaped) (short : path.length ≤ 3) (here : vmm.tableAt path = some table)
  (terminal : vmm.Terminal path table index value) (other : List (Fin 512))

include shaped short here terminal other

theorem storeSlot_tableAt (otherShort : other.length ≤ 3) :
    (vmm.storeEntry table index value).tableAt other = vmm.tableAt other := by
  induction other with
  | nil => rfl
  | cons position parent ih =>
    have parentShort : parent.length ≤ 2 := Nat.le_of_succ_le_succ otherShort
    have sameParent := ih (by omega)
    cases parentAt : vmm.tableAt parent with
    | none =>
      rw [tableAt_below_none (sameParent.trans parentAt), tableAt_below_none parentAt]
    | some parentTable =>
      rw [tableAt_cons (sameParent.trans parentAt), tableAt_cons parentAt, storeEntry_entry]
      by_cases stored : parentTable = table ∧ position = index
      · rw [if_pos stored]
        obtain ⟨sameTable, samePosition⟩ := stored
        rw [sameTable] at parentAt
        have samePath := shaped.distinct _ _ _ (by omega) short parentAt here
        rcases terminal with deep | ⟨before, after⟩
        · rw [samePath] at parentShort
          omega
        · rw [sameTable, samePosition, before, after]
          rfl
      · rw [if_neg stored]

theorem storeSlot_slot (otherShort : other.length ≤ 4) :
    (vmm.storeEntry table index value).slot other =
      if other = index :: path then (if value.present then some value else none)
      else vmm.slot other := by
  cases other with
  | nil => rfl
  | cons position parent =>
    have parentShort : parent.length ≤ 3 := Nat.le_of_succ_le_succ otherShort
    have sameParent := storeSlot_tableAt shaped short here terminal parent parentShort
    cases parentAt : vmm.tableAt parent with
    | none =>
      have elsewhere : position :: parent ≠ index :: path := by
        intro same
        injection same with _samePosition same
        rw [same, here] at parentAt
        cases parentAt
      rw [if_neg elsewhere, slot_below_none (sameParent.trans parentAt),
        slot_below_none parentAt]
    | some parentTable =>
      rw [slot_cons (sameParent.trans parentAt), slot_cons parentAt, storeEntry_entry]
      by_cases stored : position :: parent = index :: path
      · injection stored with samePosition same
        rw [same, here] at parentAt
        cases parentAt
        simp only [samePosition, same, and_self, if_true]
      have apart : ¬ (parentTable = table ∧ position = index) := by
        intro both
        rw [both.1] at parentAt
        have same := shaped.distinct _ _ _ parentShort short parentAt here
        exact stored (by rw [same, both.2])
      rw [if_neg stored, if_neg apart]

end

theorem storeSlot_shaped (shaped : vmm.Shaped) (short : path.length ≤ 3)
    (deep : 2 ≤ path.length) (here : vmm.tableAt path = some table)
    (terminal : vmm.Terminal path table index value)
    (clean : value.present = true ∨ value = PageTableEntry.zero) :
    (vmm.storeEntry table index value).Shaped := by
  have view := fun other otherShort =>
    storeSlot_tableAt shaped short here terminal other otherShort
  refine
    { distinct := ?_
      absentZero := ?_
      noHuge := ?_ }
  · intro left right shared leftShort rightShort atLeft atRight
    rw [view left leftShort] at atLeft
    rw [view right rightShort] at atRight
    exact shaped.distinct left right shared leftShort rightShort atLeft atRight
  · intro other otherTable position otherShort atOther
    rw [view other otherShort] at atOther
    rw [storeEntry_entry]
    by_cases stored : otherTable = table ∧ position = index
    · rw [if_pos stored]
      intro absent
      rcases clean with present | zero
      · rw [present] at absent
        cases absent
      · exact zero
    · rw [if_neg stored]
      exact shaped.absentZero other otherTable position otherShort atOther
  · intro other otherTable position otherShort atOther
    rw [view other (by omega)] at atOther
    have apart : ¬ (otherTable = table ∧ position = index) := by
      intro both
      rw [both.1] at atOther
      have same := shaped.distinct _ _ _ (by omega) short atOther here
      rw [same] at otherShort
      omega
    rw [storeEntry_entry, if_neg apart]
    exact shaped.noHuge other otherTable position otherShort atOther

theorem storeSlot_wellFormed (formed : vmm.WellFormed) (short : path.length ≤ 3)
    (deep : 2 ≤ path.length) (here : vmm.tableAt path = some table)
    (terminal : vmm.Terminal path table index value)
    (clean : value.present = true ∨ value = PageTableEntry.zero) :
    (vmm.storeEntry table index value).WellFormed := by
  have shaped := storeSlot_shaped formed.shaped short deep here terminal clean
  refine
    { distinct := shaped.distinct
      used := ?_
      absentZero := shaped.absentZero
      noHuge := shaped.noHuge }
  intro other otherTable otherShort atOther
  rw [storeSlot_tableAt formed.shaped short here terminal other otherShort] at atOther
  exact formed.used other otherTable otherShort atOther

theorem storeSlot_missing (formed : vmm.WellFormed) (short : path.length ≤ 3)
    (here : vmm.tableAt path = some table) (terminal : vmm.Terminal path table index value)
    {paths : Finset (List (Fin 512))} (pathsShort : ∀ other ∈ paths, other.length ≤ 3) :
    (vmm.storeEntry table index value).missingTables paths = vmm.missingTables paths := by
  unfold missingTables
  apply Finset.filter_congr
  intro other member
  rw [storeSlot_tableAt formed.shaped short here terminal other (pathsShort other member)]

end StoreSlot

/-! ### One step of the walk -/

def withTable (vmm : Vmm) (table : Nat) (index : Fin 512) (frame : Nat) : Vmm :=
  let supplied : Vmm := { vmm with pmm := vmm.pmm.claim frame 1 }
  supplied.storeEntry table index (tableEntry (supplied.entry table index) frame)

/-- What one step of the walk can do: follow an entry, create a table in the least
free frame, or, when no frame is free, enter frame 0 as a table. -/
inductive WalkStep (vmm : Vmm) (table : Nat) (index : Fin 512) : Nat × Vmm → Prop where
  | follow (present : (vmm.entry table index).present = true) :
      WalkStep vmm table index ((vmm.entry table index).physicalAddress, vmm)
  | create (frame : Nat) (absent : (vmm.entry table index).present = false)
      (free : frame ∈ freeFrames vmm.pmm)
      (least : ∀ earlier < frame, earlier ∉ freeFrames vmm.pmm) :
      WalkStep vmm table index (frame, vmm.withTable table index frame)
  | starve (absent : (vmm.entry table index).present = false)
      (empty : freeFrames vmm.pmm = ∅) :
      WalkStep vmm table index
        (0, vmm.storeEntry table index (tableEntry (vmm.entry table index) 0))

theorem walk_outcome (vmm : Vmm) (table : Nat) (index : Fin 512) :
    WalkStep vmm table index (vmm.vmmWalkAndCrateNextTable table index) := by
  unfold vmmWalkAndCrateNextTable
  cases presence : (vmm.entry table index).present with
  | true => exact WalkStep.follow presence
  | false =>
    rcases allocate_one_cases vmm.pmm with ⟨frame, free, least, allocated⟩ | ⟨empty, refused⟩
    · have shifted : (frame * 4096) >>> 12 = frame := by
        rw [Nat.shiftRight_eq_div_pow]
        omega
      simp only [allocated, shifted, if_true]
      exact WalkStep.create frame presence free least
    · simp only [refused, if_true]
      exact WalkStep.starve presence empty

theorem tableEntry_physical (pmm : Pmm) (old : PageTableEntry)
    (free : frame ∈ freeFrames pmm) : (tableEntry old frame).physicalAddress = frame := by
  have bound := pmm.framesBound
  have inRange := (mem_freeFrames.mp free).1
  exact Nat.mod_eq_of_lt (by omega)

theorem freeFrames_addressable {pmm : Pmm} (free : frame ∈ freeFrames pmm) :
    frame + 1 ≤ 2 ^ 52 := by
  have bound := pmm.framesBound
  have inRange := (mem_freeFrames.mp free).1
  omega

theorem withTable_entry (vmm : Vmm) (table frame other : Nat) (index position : Fin 512)
    (different : table ≠ frame) (free : frame ∈ freeFrames vmm.pmm) :
    (vmm.withTable table index frame).entry other position =
      if other = table ∧ position = index then tableEntry (vmm.entry table index) frame
      else if other = frame then PageTableEntry.zero
      else vmm.entry other position := by
  unfold withTable
  rw [storeEntry_entry]
  have inClaim : ∀ address, (frame ≤ address ∧ address < frame + 1) ↔ address = frame := by
    intro address
    omega
  simp only [entry, PmmOf.claim_ram _ _ _ _ (freeFrames_addressable free), inClaim,
    if_neg different]
  split
  · rfl
  · split <;> rfl

theorem withTable_freeFrames (vmm : Vmm) (table : Nat) (index : Fin 512) (frame : Nat) :
    freeFrames (vmm.withTable table index frame).pmm = (freeFrames vmm.pmm).erase frame :=
  freeFrames_claim vmm.pmm frame

theorem withTable_used (vmm : Vmm) (table : Nat) (index : Fin 512) (frame other : Nat) :
    (vmm.withTable table index frame).pmm.used other =
      (decide (other = frame) || vmm.pmm.used other) := by
  have view := PmmOf.claim_used vmm.pmm frame 1 other
  have single : (frame ≤ other ∧ other < frame + 1) ↔ other = frame := by omega
  simp only [single] at view
  exact view

theorem withTable_size (vmm : Vmm) (table : Nat) (index : Fin 512) (frame : Nat) :
    (vmm.withTable table index frame).pmm.bitmapSizeFrames = vmm.pmm.bitmapSizeFrames :=
  PmmOf.claim_size vmm.pmm frame 1

theorem tableEntry_zero_isTable (frame : Nat) :
    (tableEntry PageTableEntry.zero frame).isTable = true := rfl

variable {path : List (Fin 512)}

theorem tableAt_absent {index : Fin 512}
    (here : vmm.tableAt path = some table)
    (absent : (vmm.entry table index).present = false) : vmm.tableAt (index :: path) = none := by
  rw [tableAt_cons here, PageTableEntry.isTable_of_absent absent]
  rfl

theorem slot_absent {index : Fin 512}
    (here : vmm.tableAt path = some table)
    (absent : (vmm.entry table index).present = false) : vmm.slot (index :: path) = none := by
  rw [slot_cons here, absent]
  rfl

/-- A table was created in a frame that held none, below an absent entry of the
table at `path`. -/
structure Created (before after : Vmm) (path : List (Fin 512)) (table : Nat) (index : Fin 512)
    (frame : Nat) : Prop where
  short : path.length ≤ 2
  here : before.tableAt path = some table
  absent : (before.entry table index).present = false
  fresh : ∀ other otherTable, other.length ≤ 3 → before.tableAt other = some otherTable →
    otherTable ≠ frame
  named : physicalField frame = frame
  root : after.pml4 = before.pml4
  entries : ∀ other position, after.entry other position =
    if other = table ∧ position = index then tableEntry (before.entry table index) frame
    else if other = frame then PageTableEntry.zero
    else before.entry other position

namespace Created

variable {before after : Vmm} {path : List (Fin 512)} {table frame : Nat} {index : Fin 512}

section

variable (created : Created before after path table index frame)

include created

theorem apart : table ≠ frame :=
  created.fresh path table (Nat.le_succ_of_le created.short) created.here

theorem zeroBefore
    (shaped : before.Shaped) : before.entry table index = PageTableEntry.zero :=
  shaped.absentZero path table index (Nat.le_succ_of_le created.short) created.here created.absent

theorem tableAt (shaped : before.Shaped)
    (other : List (Fin 512)) (otherShort : other.length ≤ 3) :
    after.tableAt other =
      if other = index :: path then some frame else before.tableAt other := by
  have short := created.short
  induction other with
  | nil =>
    rw [if_neg (List.cons_ne_nil _ _).symm]
    exact congrArg some created.root
  | cons position parent ih =>
    have parentShort : parent.length ≤ 2 := Nat.le_of_succ_le_succ otherShort
    have parentView := ih (by omega)
    by_cases atNew : parent = index :: path
    · -- below the new table nothing is present, before or after
      have longer : position :: parent ≠ index :: path := by
        intro same
        have lengths := congrArg List.length same
        rw [atNew] at lengths
        simp at lengths
      rw [if_pos atNew] at parentView
      rw [if_neg longer, tableAt_cons parentView, created.entries, atNew,
        tableAt_below_none (tableAt_absent created.here created.absent)]
      simp [Ne.symm created.apart, PageTableEntry.zero, PageTableEntry.isTable]
    · rw [if_neg atNew] at parentView
      cases parentAt : before.tableAt parent with
      | none =>
        have notHere : position :: parent ≠ index :: path := by
          intro same
          injection same with _samePosition sameParent
          rw [sameParent, created.here] at parentAt
          cases parentAt
        rw [if_neg notHere, tableAt_below_none (parentView.trans parentAt),
          tableAt_below_none parentAt]
      | some parentTable =>
        have parentFrame := created.fresh parent parentTable (by omega) parentAt
        rw [tableAt_cons (parentView.trans parentAt), created.entries, if_neg parentFrame]
        by_cases isNew : position :: parent = index :: path
        · injection isNew with samePosition sameParent
          rw [sameParent, created.here] at parentAt
          cases parentAt
          simp only [samePosition, sameParent, and_self, if_true, created.zeroBefore shaped,
            tableEntry_zero_isTable]
          exact congrArg some created.named
        · have elsewhere : ¬ (parentTable = table ∧ position = index) := by
            intro both
            rw [both.1] at parentAt
            have same := shaped.distinct _ _ _ (by omega) (by omega) parentAt created.here
            exact isNew (by rw [same, both.2])
          rw [if_neg isNew, if_neg elsewhere, tableAt_cons parentAt]

/-- The creation of a table changes the slot of its entry and no other. -/
theorem slot (shaped : before.Shaped)
    (other : List (Fin 512)) (otherShort : other.length ≤ 4) :
    after.slot other =
      if other = index :: path then some (tableEntry (before.entry table index) frame)
      else before.slot other := by
  have short := created.short
  cases other with
  | nil => rfl
  | cons position parent =>
    have parentShort : parent.length ≤ 3 := Nat.le_of_succ_le_succ otherShort
    have parentView := created.tableAt shaped parent parentShort
    by_cases atNew : parent = index :: path
    · have longer : position :: parent ≠ index :: path := by
        intro same
        have lengths := congrArg List.length same
        rw [atNew] at lengths
        simp at lengths
      rw [if_pos atNew] at parentView
      rw [if_neg longer, slot_cons parentView, created.entries, atNew,
        slot_below_none (tableAt_absent created.here created.absent)]
      simp [Ne.symm created.apart, PageTableEntry.zero]
    · rw [if_neg atNew] at parentView
      cases parentAt : before.tableAt parent with
      | none =>
        have notHere : position :: parent ≠ index :: path := by
          intro same
          injection same with _samePosition sameParent
          rw [sameParent, created.here] at parentAt
          cases parentAt
        rw [if_neg notHere, slot_below_none (parentView.trans parentAt),
          slot_below_none parentAt]
      | some parentTable =>
        have parentFrame := created.fresh parent parentTable parentShort parentAt
        rw [slot_cons (parentView.trans parentAt), created.entries, if_neg parentFrame]
        by_cases isNew : position :: parent = index :: path
        · injection isNew with samePosition sameParent
          rw [sameParent, created.here] at parentAt
          cases parentAt
          simp only [samePosition, sameParent, and_self, if_true]
          rfl
        · have elsewhere : ¬ (parentTable = table ∧ position = index) := by
            intro both
            rw [both.1] at parentAt
            have same := shaped.distinct _ _ _ parentShort (by omega) parentAt created.here
            exact isNew (by rw [same, both.2])
          rw [if_neg isNew, if_neg elsewhere, slot_cons parentAt]

theorem sameSlot (shaped : before.Shaped)
    (other : List (Fin 512)) (below : path.length + 1 < other.length)
    (otherShort : other.length ≤ 4) : after.slot other = before.slot other := by
  have elsewhere : other ≠ index :: path := by
    intro same
    rw [same, List.length_cons] at below
    omega
  rw [created.slot shaped other otherShort, if_neg elsewhere]

theorem hugeAt (shaped : before.Shaped)
    (vAddr : Nat) : after.hugeAt vAddr = before.hugeAt vAddr := by
  unfold Vmm.hugeAt
  rw [created.slot shaped (ptPath vAddr) (by simp [ptPath])]
  by_cases isNew : ptPath vAddr = index :: path
  · rw [if_pos isNew, isNew, slot_absent created.here created.absent, created.zeroBefore shaped]
    rfl
  · rw [if_neg isNew]

theorem shaped (shaped : before.Shaped) :
    after.Shaped := by
  have view := fun other otherShort => created.tableAt shaped other otherShort
  refine
    { distinct := ?_
      absentZero := ?_
      noHuge := ?_ }
  · intro left right shared leftShort rightShort atLeft atRight
    rw [view left leftShort] at atLeft
    rw [view right rightShort] at atRight
    by_cases leftNew : left = index :: path
    · by_cases rightNew : right = index :: path
      · rw [leftNew, rightNew]
      · rw [if_pos leftNew] at atLeft
        rw [if_neg rightNew] at atRight
        cases atLeft
        exact absurd rfl (created.fresh right _ rightShort atRight)
    · rw [if_neg leftNew] at atLeft
      by_cases rightNew : right = index :: path
      · rw [if_pos rightNew] at atRight
        cases atRight
        exact absurd rfl (created.fresh left _ leftShort atLeft)
      · rw [if_neg rightNew] at atRight
        exact shaped.distinct left right shared leftShort rightShort atLeft atRight
  · intro other otherTable position otherShort atOther
    rw [view other otherShort] at atOther
    rw [created.entries]
    by_cases isNew : other = index :: path
    · rw [if_pos isNew] at atOther
      cases atOther
      simp [Ne.symm created.apart]
    rw [if_neg isNew] at atOther
    rw [if_neg (created.fresh other otherTable otherShort atOther)]
    by_cases changed : otherTable = table ∧ position = index
    · rw [if_pos changed]
      intro impossible
      cases impossible
    · rw [if_neg changed]
      exact shaped.absentZero other otherTable position otherShort atOther
  · intro other otherTable position otherShort atOther
    rw [view other (by omega)] at atOther
    rw [created.entries]
    by_cases isNew : other = index :: path
    · rw [if_pos isNew] at atOther
      cases atOther
      simp [Ne.symm created.apart, PageTableEntry.zero]
    rw [if_neg isNew] at atOther
    rw [if_neg (created.fresh other otherTable (by omega) atOther)]
    by_cases changed : otherTable = table ∧ position = index
    · rw [if_pos changed, created.zeroBefore shaped]
      rfl
    · rw [if_neg changed]
      exact shaped.noHuge other otherTable position otherShort atOther

end

end Created

section Creation

variable {vmm : Vmm} {path : List (Fin 512)} {table frame : Nat} {index : Fin 512}

theorem frame_ne_table (formed : vmm.WellFormed) (free : frame ∈ freeFrames vmm.pmm)
    {other : List (Fin 512)} {otherTable : Nat} (short : other.length ≤ 3)
    (here : vmm.tableAt other = some otherTable) : otherTable ≠ frame := by
  intro same
  have busy := (formed.used other otherTable short here).2
  rw [same, (mem_freeFrames.mp free).2] at busy
  cases busy

section

variable (formed : vmm.WellFormed) (short : path.length ≤ 2) (here : vmm.tableAt path = some table)
  (absent : (vmm.entry table index).present = false) (free : frame ∈ freeFrames vmm.pmm)

include formed short here absent free

theorem withTable_created :
    Created vmm (vmm.withTable table index frame) path table index frame :=
  { short := short
    here := here
    absent := absent
    fresh := fun _ _ otherShort atOther => frame_ne_table formed free otherShort atOther
    named := tableEntry_physical vmm.pmm PageTableEntry.zero free
    root := rfl
    entries := fun other position => withTable_entry vmm table frame other index position
      (frame_ne_table formed free (by omega : path.length ≤ 3) here) free }

theorem withTable_wellFormed :
    (vmm.withTable table index frame).WellFormed := by
  have created := withTable_created formed short here absent free
  have shaped := created.shaped formed.shaped
  refine
    { distinct := shaped.distinct
      used := ?_
      absentZero := shaped.absentZero
      noHuge := shaped.noHuge }
  intro other otherTable otherShort atOther
  rw [created.tableAt formed.shaped other otherShort] at atOther
  rw [withTable_size, withTable_used]
  by_cases isNew : other = index :: path
  · rw [if_pos isNew] at atOther
    cases atOther
    have bounds := (mem_freeFrames.mp free).1
    simp [bounds]
  · rw [if_neg isNew] at atOther
    have kept := formed.used other otherTable otherShort atOther
    simp [kept]

theorem withTable_missing {paths : Finset (List (Fin 512))}
    (pathsShort : ∀ other ∈ paths, other.length ≤ 3) :
    (vmm.withTable table index frame).missingTables paths =
      (vmm.missingTables paths).erase (index :: path) := by
  have view := (withTable_created formed short here absent free).tableAt formed.shaped
  ext other
  unfold missingTables
  rw [Finset.mem_erase, Finset.mem_filter, Finset.mem_filter]
  constructor
  · rintro ⟨inPaths, none⟩
    rw [view other (pathsShort other inPaths)] at none
    by_cases isNew : other = index :: path
    · rw [if_pos isNew] at none
      cases none
    · rw [if_neg isNew] at none
      exact ⟨isNew, inPaths, none⟩
  · rintro ⟨isOld, inPaths, none⟩
    rw [view other (pathsShort other inPaths), if_neg isOld]
    exact ⟨inPaths, none⟩

end

theorem mem_missingTables (here : vmm.tableAt path = some table)
    (absent : (vmm.entry table index).present = false) {paths : Finset (List (Fin 512))}
    (member : index :: path ∈ paths) : index :: path ∈ vmm.missingTables paths :=
  Finset.mem_filter.mpr ⟨member, tableAt_absent here absent⟩

end Creation

/-! ### The walk along a path -/

/-- What every operation keeps while it walks to a table at depth `depth`. -/
structure Walked (before after : Vmm) (depth : Nat) : Prop where
  formed : after.WellFormed
  sameRoot : after.pml4 = before.pml4
  sameSlot : ∀ other, depth < other.length → other.length ≤ 4 →
    after.slot other = before.slot other
  sameHuge : ∀ vAddr, after.hugeAt vAddr = before.hugeAt vAddr

theorem Walked.refl (depth : Nat) (formed : vmm.WellFormed) : Walked vmm vmm depth :=
  { formed := formed
    sameRoot := rfl
    sameSlot := fun _ _ _ => rfl
    sameHuge := fun _ => rfl }

theorem Walked.trans {first second third : Vmm} {shallow depth : Nat}
    (left : Walked first second shallow) (right : Walked second third depth)
    (deeper : shallow ≤ depth) : Walked first third depth where
  formed := right.formed
  sameRoot := right.sameRoot.trans left.sameRoot
  sameSlot := by
    intro other below short
    rw [right.sameSlot other below short, left.sameSlot other (by omega) short]
  sameHuge := fun vAddr => (right.sameHuge vAddr).trans (left.sameHuge vAddr)

theorem Walked.sameLeaf {before after : Vmm} (walked : Walked before after 3) (vAddr : Nat) :
    after.leaf vAddr = before.leaf vAddr :=
  walked.sameSlot _ (by simp [ptPath]) (by simp [ptPath])

section Step

variable {vmm : Vmm} {path : List (Fin 512)} {table : Nat} {index : Fin 512}

/-- Unless it needs a frame and none is free, a step of the walk reaches the next
table of the path. -/
theorem walk_reaches (formed : vmm.WellFormed) (short : path.length ≤ 2)
    (here : vmm.tableAt path = some table)
    (small : ∀ entry, vmm.slot (index :: path) = some entry → entry.hugePage = false)
    (fed : (vmm.entry table index).present = false → freeFrames vmm.pmm ≠ ∅) :
    Walked vmm (vmm.vmmWalkAndCrateNextTable table index).2 (path.length + 1) ∧
      (vmm.vmmWalkAndCrateNextTable table index).2.tableAt (index :: path) =
        some (vmm.vmmWalkAndCrateNextTable table index).1 := by
  have step := walk_outcome vmm table index
  generalize vmm.vmmWalkAndCrateNextTable table index = result at step
  cases step with
  | follow present =>
    have held : vmm.slot (index :: path) = some (vmm.entry table index) := by
      rw [slot_cons here, present]
      rfl
    have leads : (vmm.entry table index).isTable = true := by
      unfold PageTableEntry.isTable
      rw [present, small _ held]
      rfl
    refine ⟨Walked.refl _ formed, ?_⟩
    rw [tableAt_cons here, leads]
    rfl
  | create frame absent free least =>
    have created := withTable_created formed short here absent free
    constructor
    · exact
        { formed := withTable_wellFormed formed short here absent free
          sameRoot := rfl
          sameSlot := created.sameSlot formed.shaped
          sameHuge := created.hugeAt formed.shaped }
    · have inReach : (index :: path).length ≤ 3 := Nat.succ_le_succ short
      rw [created.tableAt formed.shaped _ inReach, if_pos rfl]
  | starve absent empty => exact absurd empty (fed absent)

theorem Supplied.fed {paths : Finset (List (Fin 512))} (supplied : vmm.Supplied paths)
    (here : vmm.tableAt path = some table) (member : index :: path ∈ paths)
    (absent : (vmm.entry table index).present = false) : freeFrames vmm.pmm ≠ ∅ := by
  intro empty
  have missing := mem_missingTables here absent member
  have positive := Finset.card_pos.mpr ⟨_, missing⟩
  unfold Supplied at supplied
  rw [empty, Finset.card_empty] at supplied
  omega

theorem walk_supplied (formed : vmm.WellFormed) (short : path.length ≤ 2)
    (here : vmm.tableAt path = some table) {paths : Finset (List (Fin 512))}
    (pathsShort : ∀ other ∈ paths, other.length ≤ 3) (member : index :: path ∈ paths)
    (supplied : vmm.Supplied paths) :
    (vmm.vmmWalkAndCrateNextTable table index).2.Supplied paths := by
  have step := walk_outcome vmm table index
  generalize vmm.vmmWalkAndCrateNextTable table index = result at step
  cases step with
  | follow present => exact supplied
  | create frame absent free least =>
    have missing := mem_missingTables here absent member
    unfold Supplied at supplied ⊢
    rw [withTable_missing formed short here absent free pathsShort, withTable_freeFrames,
      Finset.card_erase_of_mem missing, Finset.card_erase_of_mem free]
    omega
  | starve absent empty => exact absurd empty (supplied.fed here member absent)

end Step

def walkTo (vmm : Vmm) : List (Fin 512) → Nat × Vmm
  | [] => (vmm.pml4, vmm)
  | index :: path =>
    (vmm.walkTo path).2.vmmWalkAndCrateNextTable (vmm.walkTo path).1 index

theorem walkTo_existing (path : List (Fin 512))
    (here : vmm.tableAt path = some table) : vmm.walkTo path = (table, vmm) := by
  induction path generalizing table with
  | nil =>
    cases here
    rfl
  | cons index parent ih =>
    cases parentAt : vmm.tableAt parent with
    | none =>
      rw [tableAt_below_none parentAt] at here
      cases here
    | some parentTable =>
      rw [tableAt_cons parentAt] at here
      split at here
      · rename_i leads
        cases here
        have present := (Bool.and_eq_true_iff.mp leads).1
        simp only [walkTo, ih parentAt, vmmWalkAndCrateNextTable, present]
        rfl
      · cases here

def tablesOf : List (Fin 512) → Finset (List (Fin 512))
  | [] => ∅
  | index :: path => insert (index :: path) (tablesOf path)

theorem tablesOf_short {other : List (Fin 512)} (member : other ∈ tablesOf path) :
    other.length ≤ path.length := by
  induction path with
  | nil => cases member
  | cons index parent ih =>
    rcases Finset.mem_insert.mp member with isPath | above
    · rw [isPath]
    · have inParent := ih above
      rw [List.length_cons]
      omega

/-- With a frame for every missing table the walk reaches the table of its path. -/
theorem walkTo_reaches {paths : Finset (List (Fin 512))} (path : List (Fin 512))
    (short : path.length ≤ 3) (formed : vmm.WellFormed)
    (small : ∀ entry, vmm.slot path = some entry → entry.hugePage = false)
    (pathsShort : ∀ other ∈ paths, other.length ≤ 3) (covered : tablesOf path ⊆ paths)
    (supplied : vmm.Supplied paths) :
    Walked vmm (vmm.walkTo path).2 path.length ∧ (vmm.walkTo path).2.Supplied paths ∧
      (vmm.walkTo path).2.tableAt path = some (vmm.walkTo path).1 := by
  induction path with
  | nil => exact ⟨Walked.refl _ formed, supplied, rfl⟩
  | cons index parent ih =>
    have parentShort : parent.length ≤ 2 := Nat.le_of_succ_le_succ short
    have member : index :: parent ∈ paths := covered (Finset.mem_insert_self _ _)
    obtain ⟨walked, still, atParent⟩ := ih (by omega)
      (fun entry held => slot_high formed.shaped parentShort held)
      (fun other inParent => covered (Finset.mem_insert_of_mem inParent))
    have sameSlot := walked.sameSlot (index :: parent) (Nat.lt_succ_self _)
      (Nat.le_succ_of_le short)
    obtain ⟨step, atPath⟩ := walk_reaches walked.formed parentShort atParent
      (by rw [sameSlot]; exact small) (still.fed atParent member)
    exact ⟨walked.trans step (Nat.le_succ _),
      walk_supplied walked.formed parentShort atParent pathsShort member still, atPath⟩

end Vmm
end Fesos
