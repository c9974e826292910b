/-
Frame 0 in the page tables.

Mapping stores leaves as well as tables, and demand paging maps a frame it has just
asked for.  Neither looks at a failed request, so both enter frame 0 exactly when the
frames do not suffice, frame 0 is handed out, or a leaf is asked to map it.
-/

import Fesos.VmmHistory
import Fesos.Vma

set_option autoImplicit false

namespace Fesos
namespace Vmm

/-! ### Mapping -/

def leafTable (flags vAddr : Nat) : List (Fin 512) :=
  if flagBit flags 4 then pdPath vAddr else ptPath vAddr

def leafIndex (flags vAddr : Nat) : Fin 512 :=
  if flagBit flags 4 then pdIndex vAddr else ptIndex vAddr

def leafSlot (flags vAddr : Nat) : List (Fin 512) := leafIndex flags vAddr :: leafTable flags vAddr

def stride (flags : Nat) : Nat := if flagBit flags 4 then 0x200000 else 0x1000

def nextPAddr (flags pAddr : Nat) : Nat :=
  if flagBit flags 4 then pAddr else word (pAddr + 0x1000)

def leafEntry (flags : Nat) (old : PageTableEntry) (pAddr : Nat) : PageTableEntry :=
  if flagBit flags 4 then hugeLeaf old pAddr flags else smallLeaf old pAddr flags

/-- The frame field of the leaf made for page `offset` of a request. -/
def frameField (flags pAddr offset : Nat) : Nat :=
  if flagBit flags 4 then physicalField (pAddr / 4096 / 512 * 512)
  else physicalField (pAddr / 4096 + offset)

theorem mapPages_succ (flags pages vAddr pAddr : Nat) (vmm : Vmm) :
    mapPages flags (pages + 1) vAddr pAddr vmm =
      if ((vmm.walkTo (leafTable flags vAddr)).2.entry (vmm.walkTo (leafTable flags vAddr)).1
          (leafIndex flags vAddr)).present then
        (-EEXIST, (vmm.walkTo (leafTable flags vAddr)).2)
      else
        mapPages flags pages (word (vAddr + stride flags)) (nextPAddr flags pAddr)
          ((vmm.walkTo (leafTable flags vAddr)).2.storeEntry
            (vmm.walkTo (leafTable flags vAddr)).1 (leafIndex flags vAddr)
            (leafEntry flags ((vmm.walkTo (leafTable flags vAddr)).2.entry
              (vmm.walkTo (leafTable flags vAddr)).1 (leafIndex flags vAddr)) pAddr)) := by
  unfold leafTable leafIndex stride nextPAddr leafEntry
  cases huge : flagBit flags 4 with
  | true =>
    simp only [mapPages, huge, if_true]
    rfl
  | false =>
    simp only [mapPages, huge, Bool.false_eq_true, if_false]
    rfl

theorem leafTable_short (flags vAddr : Nat) : (leafTable flags vAddr).length ≤ 3 := by
  unfold leafTable
  split
  · exact (by decide : 2 ≤ 3)
  · exact Nat.le_refl 3

theorem leafTable_deep (flags vAddr : Nat) : 2 ≤ (leafTable flags vAddr).length := by
  unfold leafTable
  split
  · exact Nat.le_refl 2
  · exact (by decide : 2 ≤ 3)

theorem leafTable_length (flags left right : Nat) :
    (leafTable flags left).length = (leafTable flags right).length := by
  unfold leafTable
  split <;> rfl

theorem leafSlot_congr (flags : Nat) {left right : Nat} (same : page left = page right) :
    leafSlot flags left = leafSlot flags right := by
  obtain ⟨samePath, sameIndex⟩ := (page_eq_iff left right).mp same
  have directory : pdIndex left = pdIndex right ∧ pdPath left = pdPath right := by
    injection samePath with first others
    exact ⟨first, others⟩
  unfold leafSlot leafIndex leafTable
  rw [samePath, sameIndex, directory.1, directory.2]

theorem leafEntry_present (flags : Nat) (old : PageTableEntry) (pAddr : Nat) :
    (leafEntry flags old pAddr).present = true := by
  unfold leafEntry
  split <;> rfl

theorem leafEntry_frameZero (flags : Nat) (old : PageTableEntry) (pAddr : Nat) :
    (leafEntry flags old pAddr).FrameZero ↔ frameField flags pAddr 0 = 0 := by
  have shifted : pAddr >>> 12 = pAddr / 4096 := Nat.shiftRight_eq_div_pow pAddr 12
  unfold PageTableEntry.FrameZero
  rw [leafEntry_present, eq_self, true_and]
  unfold leafEntry frameField
  split
  · rw [hugeLeaf, shifted]
  · rw [smallLeaf, shifted, Nat.add_zero]

theorem frameField_next (flags pAddr offset : Nat) :
    frameField flags (nextPAddr flags pAddr) offset = frameField flags pAddr (offset + 1) := by
  unfold frameField nextPAddr
  split
  · rfl
  · unfold physicalField word
    omega

/-- Page `offset` of a request is entered: no page up to it was present or came up
before. -/
def Enters (vmm : Vmm) (flags vAddr offset : Nat) : Prop :=
  ∀ page ≤ offset, vmm.slot (leafSlot flags (vAddr + stride flags * page)) = none ∧
    ∀ earlier < page, leafSlot flags (vAddr + stride flags * earlier) ≠
      leafSlot flags (vAddr + stride flags * page)

instance (vmm : Vmm) (flags vAddr : Nat) : DecidablePred (vmm.Enters flags vAddr) :=
  fun offset => inferInstanceAs (Decidable (∀ page ≤ offset, _))

def mapPaths (vmm : Vmm) (flags vAddr pages : Nat) : Finset (List (Fin 512)) :=
  ((Finset.range pages).filter (vmm.Enters flags vAddr)).biUnion
    (fun offset => tablesOf (leafTable flags (vAddr + stride flags * offset)))

/-- The manager can supply the missing tables of a request, and no page entered is
asked to map frame 0. -/
def MapAffords (vmm : Vmm) (flags vAddr pAddr pages : Nat) : Prop :=
  vmm.Affords (vmm.mapPaths flags vAddr pages) ∧
    ∀ offset < pages, vmm.Enters flags vAddr offset → frameField flags pAddr offset ≠ 0

variable {flags pAddr pages vAddr : Nat} {vmm : Vmm}

theorem mem_mapPaths {path : List (Fin 512)} :
    path ∈ vmm.mapPaths flags vAddr pages ↔ ∃ offset < pages, vmm.Enters flags vAddr offset ∧
      path ∈ tablesOf (leafTable flags (vAddr + stride flags * offset)) := by
  unfold mapPaths
  simp only [Finset.mem_biUnion, Finset.mem_filter, Finset.mem_range, and_assoc]

theorem mapPaths_short {path : List (Fin 512)}
    (member : path ∈ vmm.mapPaths flags vAddr pages) : path.length ≤ 3 := by
  obtain ⟨offset, _inRange, _enters, inWalk⟩ := mem_mapPaths.mp member
  exact (tablesOf_short inWalk).trans (leafTable_short flags _)

theorem mapPages_grows (flags pages vAddr pAddr : Nat) (vmm : Vmm) :
    vmm.stores <:+ (mapPages flags pages vAddr pAddr vmm).2.stores := by
  induction pages generalizing vAddr pAddr vmm with
  | zero => exact List.suffix_refl _
  | succ pages ih =>
    rw [mapPages_succ]
    split
    · exact walkTo_grows _ _
    · exact (walkTo_grows _ _).trans ((store_grows _ _ _ _).trans (ih _ _ _))

section LeafStore

variable {before vmm : Vmm} {flags vAddr table : Nat}

structure LeafStored (before next : Vmm) (flags vAddr : Nat) : Prop where
  formed : next.WellFormed
  slots : ∀ other, next.slot (leafSlot flags other) = none ↔
    leafSlot flags other ≠ leafSlot flags vAddr ∧ before.slot (leafSlot flags other) = none
  sameHuge : flagBit flags 4 = false → ∀ other, next.hugeAt other = before.hugeAt other

theorem leaf_terminal (old : PageTableEntry) (pAddr : Nat)
    (absent : (vmm.entry table (leafIndex flags vAddr)).present = false) :
    vmm.Terminal (leafTable flags vAddr) table (leafIndex flags vAddr)
      (leafEntry flags old pAddr) := by
  cases huge : flagBit flags 4 with
  | true =>
    refine Or.inr ⟨PageTableEntry.isTable_of_absent absent, ?_⟩
    unfold leafEntry
    rw [huge]
    rfl
  | false =>
    apply Or.inl
    unfold leafTable
    rw [huge]
    rfl

theorem leaf_stored (old : PageTableEntry) (pAddr : Nat)
    (walked : Walked before vmm (leafTable flags vAddr).length)
    (here : vmm.tableAt (leafTable flags vAddr) = some table)
    (absent : (vmm.entry table (leafIndex flags vAddr)).present = false) :
    LeafStored before (vmm.storeEntry table (leafIndex flags vAddr) (leafEntry flags old pAddr))
      flags vAddr := by
  have short := leafTable_short flags vAddr
  have terminal := leaf_terminal old pAddr absent
  have view := fun other otherShort =>
    storeSlot_slot walked.formed.shaped short here terminal other otherShort
  refine
    { formed := storeSlot_wellFormed walked.formed short (leafTable_deep flags vAddr) here terminal
        (Or.inl (leafEntry_present _ _ _))
      slots := ?_
      sameHuge := ?_ }
  · intro other
    have reach : (leafSlot flags other).length = (leafTable flags vAddr).length + 1 := by
      rw [leafSlot, List.length_cons, leafTable_length flags other vAddr]
    rw [view _ (by omega), ← walked.sameSlot (leafSlot flags other) (by omega) (by omega),
      leafEntry_present]
    by_cases same : leafSlot flags other = leafSlot flags vAddr
    · have isSlot : leafSlot flags other = leafIndex flags vAddr :: leafTable flags vAddr := same
      rw [if_pos isSlot]
      simp [same]
    · have apart : leafSlot flags other ≠ leafIndex flags vAddr :: leafTable flags vAddr := same
      rw [if_neg apart]
      simp [same]
  · intro small other
    have deep : leafTable flags vAddr = ptPath vAddr := by
      unfold leafTable
      rw [small]
      rfl
    have shorter : ptPath other ≠ leafIndex flags vAddr :: leafTable flags vAddr := by
      intro same
      have lengths := congrArg List.length same
      rw [deep] at lengths
      simp [ptPath] at lengths
    rw [← walked.sameHuge]
    unfold hugeAt
    rw [view _ (by simp [ptPath]), if_neg shorter]

/-- After the first page was entered, the rest of the request is entered as before. -/
theorem LeafStored.enters {next : Vmm} (stored : LeafStored before next flags vAddr)
    (absent : before.slot (leafSlot flags vAddr) = none) (offset : Nat) :
    next.Enters flags (word (vAddr + stride flags)) offset ↔
      before.Enters flags vAddr (offset + 1) := by
  have later : ∀ k, leafSlot flags (word (vAddr + stride flags) + stride flags * k) =
      leafSlot flags (vAddr + stride flags * (k + 1)) := by
    intro k
    rw [leafSlot_congr flags (page_word (vAddr + stride flags) (stride flags * k)), Nat.mul_succ,
      Nat.add_comm (stride flags * k), Nat.add_assoc]
  unfold Enters
  simp only [later, stored.slots]
  constructor
  · intro enters page inRange
    cases page with
    | zero => exact ⟨absent, fun earlier before => absurd before (Nat.not_lt_zero _)⟩
    | succ page =>
      obtain ⟨⟨notFirst, free⟩, fresh⟩ := enters page (by omega)
      refine ⟨free, fun earlier before => ?_⟩
      cases earlier with
      | zero => exact fun same => notFirst same.symm
      | succ earlier => exact fresh earlier (by omega)
  · intro enters page inRange
    obtain ⟨free, fresh⟩ := enters (page + 1) (by omega)
    refine ⟨⟨fun same => fresh 0 (by omega) same.symm, free⟩, fun earlier before => ?_⟩
    exact fresh (earlier + 1) (by omega)

theorem LeafStored.mapPaths {next : Vmm} (stored : LeafStored before next flags vAddr)
    (absent : before.slot (leafSlot flags vAddr) = none) (pages : Nat) :
    before.mapPaths flags vAddr (pages + 1) =
      tablesOf (leafTable flags vAddr) ∪
        next.mapPaths flags (word (vAddr + stride flags)) pages := by
  have first : before.Enters flags vAddr 0 := by
    intro page isFirst
    rw [Nat.le_zero.mp isFirst]
    exact ⟨absent, fun earlier before => absurd before (Nat.not_lt_zero _)⟩
  have later : ∀ k, leafTable flags (word (vAddr + stride flags) + stride flags * k) =
      leafTable flags (vAddr + stride flags * (k + 1)) := by
    intro k
    have same := leafSlot_congr flags (page_word (vAddr + stride flags) (stride flags * k))
    injection same with _sameIndex sameTable
    rw [sameTable, Nat.mul_succ, Nat.add_comm (stride flags * k), Nat.add_assoc]
  ext path
  simp only [mem_mapPaths, Finset.mem_union, later, stored.enters absent]
  constructor
  · intro member
    obtain ⟨offset, inRange, enters, inWalk⟩ := member
    cases offset with
    | zero => exact Or.inl inWalk
    | succ offset => exact Or.inr ⟨offset, by omega, enters, inWalk⟩
  · intro member
    rcases member with here | ⟨offset, inRange, enters, inWalk⟩
    · exact ⟨0, by omega, first, here⟩
    · exact ⟨offset + 1, by omega, enters, inWalk⟩

end LeafStore

variable {entry : PageTableEntry}

theorem leafTable_small (formed : vmm.WellFormed)
    (small : flagBit flags 4 = false → vmm.hugeAt vAddr = false)
    (held : vmm.slot (leafTable flags vAddr) = some entry) : entry.hugePage = false := by
  unfold leafTable at held
  split at held
  · exact slot_high formed.shaped (by simp [pdPath]) held
  · rename_i notHuge
    exact slot_of_not_huge (small (Bool.eq_false_iff.mpr notHuge)) held

theorem mapPages_busy
    (held : vmm.slot (leafSlot flags vAddr) = some entry) :
    mapPages flags (pages + 1) vAddr pAddr vmm = (-EEXIST, vmm) := by
  cases here : vmm.tableAt (leafTable flags vAddr) with
  | none =>
    rw [leafSlot, slot_below_none here] at held
    cases held
  | some table =>
    rw [leafSlot, slot_cons here] at held
    rw [mapPages_succ, walkTo_existing _ here]
    split at held
    · rename_i present
      rw [if_pos present]
    · cases held

theorem not_enters_of_busy
    (held : vmm.slot (leafSlot flags vAddr) = some entry) (offset : Nat) :
    ¬ vmm.Enters flags vAddr offset := by
  intro enters
  have first := (enters 0 (Nat.zero_le _)).1
  rw [Nat.mul_zero, Nat.add_zero, held] at first
  cases first

/-- Storing an absent leaf that was reached, and what the rest of the request costs. -/
theorem mapPages_reached {before : Vmm} {table : Nat}
    (walked : Walked before vmm (leafTable flags vAddr).length)
    (here : vmm.tableAt (leafTable flags vAddr) = some table)
    (absent : (vmm.entry table (leafIndex flags vAddr)).present = false)
    (unmapped : before.slot (leafSlot flags vAddr) = none) {next : Vmm}
    (isNext : next = vmm.storeEntry table (leafIndex flags vAddr)
      (leafEntry flags (vmm.entry table (leafIndex flags vAddr)) pAddr))
    (rest : Clean next (mapPages flags pages (word (vAddr + stride flags))
        (nextPAddr flags pAddr) next).2 ↔
      next.MapAffords flags (word (vAddr + stride flags)) (nextPAddr flags pAddr) pages) :
    Clean vmm (mapPages flags pages (word (vAddr + stride flags)) (nextPAddr flags pAddr) next).2 ↔
      vmm.Affords (before.mapPaths flags vAddr (pages + 1)) ∧
        ∀ offset < pages + 1, before.Enters flags vAddr offset → frameField flags pAddr offset ≠ 0 := by
  have short := leafTable_short flags vAddr
  have terminal := leaf_terminal (vmm.entry table (leafIndex flags vAddr)) pAddr absent
  have stored := leaf_stored (vmm.entry table (leafIndex flags vAddr)) pAddr walked here absent
  have stays := (storeSlot_tableAt walked.formed.shaped short here terminal _ short).trans here
  have pathsShort : ∀ other ∈ before.mapPaths flags vAddr (pages + 1), other.length ≤ 3 :=
    fun other member => mapPaths_short member
  have sameCost := affords_store walked.formed short here terminal pathsShort
  have grows : vmm.stores <:+ next.stores := isNext ▸ store_grows _ _ _ _
  have cleanStore : Clean vmm next ↔ frameField flags pAddr 0 ≠ 0 := by
    rw [isNext, clean_store, leafEntry_frameZero]
  rw [← isNext] at stored stays sameCost
  have first : before.Enters flags vAddr 0 := by
    intro page isFirst
    rw [Nat.le_zero.mp isFirst]
    exact ⟨unmapped, fun earlier before => absurd before (Nat.not_lt_zero _)⟩
  rw [clean_trans_iff grows (mapPages_grows _ _ _ _ _), rest, cleanStore, ← sameCost,
    stored.mapPaths unmapped, affords_union _ stays]
  unfold MapAffords
  simp only [stored.enters unmapped, frameField_next]
  constructor
  · intro both
    refine ⟨both.2.1, ?_⟩
    intro offset inRange enters
    cases offset with
    | zero => exact both.1
    | succ offset => exact both.2.2 offset (by omega) enters
  · intro both
    exact ⟨both.2 0 (by omega) first, both.1,
      fun offset inRange enters => both.2 (offset + 1) (by omega) enters⟩

theorem mapPages_clean_iff (flags pages vAddr pAddr : Nat) (vmm : Vmm) (formed : vmm.WellFormed)
    (small : flagBit flags 4 = false → ∀ offset < pages,
      vmm.hugeAt (vAddr + stride flags * offset) = false) :
    Clean vmm (mapPages flags pages vAddr pAddr vmm).2 ↔
      vmm.MapAffords flags vAddr pAddr pages := by
  induction pages generalizing vAddr pAddr vmm with
  | zero =>
    refine ⟨fun _ => ⟨affords_nothing, ?_⟩, fun _ => clean_refl vmm⟩
    intro offset inRange
    exact absurd inRange (Nat.not_lt_zero _)
  | succ pages ih =>
    cases held : vmm.slot (leafSlot flags vAddr) with
    | some entry =>
      have nothing : vmm.mapPaths flags vAddr (pages + 1) = ∅ := by
        apply Finset.eq_empty_of_forall_notMem
        intro path member
        obtain ⟨offset, _inRange, enters, _inWalk⟩ := mem_mapPaths.mp member
        exact not_enters_of_busy held offset enters
      rw [mapPages_busy held]
      refine ⟨fun _ => ⟨?_, ?_⟩, fun _ => clean_refl vmm⟩
      · rw [nothing]
        exact affords_nothing
      · intro offset _inRange enters
        exact absurd enters (not_enters_of_busy held offset)
    | none =>
      have smallHere : flagBit flags 4 = false → vmm.hugeAt vAddr = false := by
        intro notHuge
        simpa using small notHuge 0 (by omega)
      have reachable := leafTable_short flags vAddr
      have pathsShort : ∀ other ∈ vmm.mapPaths flags vAddr (pages + 1), other.length ≤ 3 :=
        fun other member => mapPaths_short member
      have covered : tablesOf (leafTable flags vAddr) ⊆
          vmm.mapPaths flags vAddr (pages + 1) := by
        intro path inWalk
        refine mem_mapPaths.mpr ⟨0, by omega, ?_, by simpa using inWalk⟩
        intro page isFirst
        rw [Nat.le_zero.mp isFirst]
        exact ⟨held, fun earlier before => absurd before (Nat.not_lt_zero _)⟩
      have cost := walkTo_affords _ reachable formed pathsShort covered
      unfold MapAffords
      rw [cost, and_assoc]
      have toTable := walkTo_grows vmm (leafTable flags vAddr)
      by_cases clean : Clean vmm (vmm.walkTo (leafTable flags vAddr)).2
      · obtain ⟨walked, here⟩ := walkTo_clean _ reachable formed
          (fun entry held => leafTable_small formed smallHere held) clean
        have unmapped := walked.sameSlot (leafSlot flags vAddr) (Nat.lt_succ_self _)
          (Nat.succ_le_succ reachable)
        rw [held, leafSlot, slot_cons here] at unmapped
        have absent : ((vmm.walkTo (leafTable flags vAddr)).2.entry
            (vmm.walkTo (leafTable flags vAddr)).1 (leafIndex flags vAddr)).present = false := by
          by_contra present
          rw [Bool.not_eq_false] at present
          rw [if_pos present] at unmapped
          cases unmapped
        have stored := leaf_stored ((vmm.walkTo (leafTable flags vAddr)).2.entry
          (vmm.walkTo (leafTable flags vAddr)).1 (leafIndex flags vAddr)) pAddr walked here absent
        have rest := ih (word (vAddr + stride flags)) (nextPAddr flags pAddr) _ stored.formed
          (by
            intro notHuge offset inRange
            have later := small notHuge (offset + 1) (by omega)
            rw [Nat.mul_succ, Nat.add_comm (stride flags * offset), ← Nat.add_assoc] at later
            rw [stored.sameHuge notHuge,
              hugeAt_congr _ (page_word (vAddr + stride flags) (stride flags * offset))]
            exact later)
        rw [mapPages_succ, absent, if_neg (by simp),
          clean_trans_iff toTable ((store_grows _ _ _ _).trans (mapPages_grows _ _ _ _ _)),
          mapPages_reached walked here absent held rfl rest]
      · have dirty : ¬ Clean vmm (mapPages flags (pages + 1) vAddr pAddr vmm).2 := by
          intro whole
          rw [mapPages_succ] at whole
          split at whole
          · exact clean whole
          · exact clean ((clean_trans_iff toTable
              ((store_grows _ _ _ _).trans (mapPages_grows _ _ _ _ _))).mp whole).1
        exact ⟨fun whole => absurd whole dirty, fun both => absurd both.1 clean⟩

theorem mapAffords_one :
    vmm.MapAffords flags vAddr pAddr 1 ↔
      (vmm.slot (leafSlot flags vAddr) = none →
        vmm.Affords (tablesOf (leafTable flags vAddr)) ∧ frameField flags pAddr 0 ≠ 0) := by
  have first : vmm.Enters flags vAddr 0 ↔ vmm.slot (leafSlot flags vAddr) = none := by
    unfold Enters
    simp
  unfold MapAffords mapPaths
  simp only [Nat.lt_one_iff, forall_eq, Finset.range_one, Finset.filter_singleton, first]
  by_cases absent : vmm.slot (leafSlot flags vAddr) = none
  · simp [absent]
  · simp only [absent, if_false, Finset.biUnion_empty, false_implies, and_true, iff_true]
    exact affords_nothing

/-! ### Claiming a data frame -/

section Claimed

variable {vmm : Vmm} {frame : Nat}

def claimed (vmm : Vmm) (frame : Nat) : Vmm := { vmm with pmm := vmm.pmm.claim frame 1 }

theorem claim_entry {start count table : Nat} (free : vmm.pmm.RunFree start count)
    (outside : ¬ (start ≤ table ∧ table < start + count)) (index : Fin 512) :
    ({ vmm with pmm := vmm.pmm.claim start count } : Vmm).entry table index =
      vmm.entry table index := by
  have frames := vmm.pmm.framesBound
  have addressable := free.1
  unfold entry
  simp only [PmmOf.claim_ram _ _ _ _ (by omega : start + count ≤ 2 ^ 52), if_neg outside]

theorem claim_tableAt {start count : Nat} (formed : vmm.WellFormed)
    (free : vmm.pmm.RunFree start count) (path : List (Fin 512)) (short : path.length ≤ 3) :
    ({ vmm with pmm := vmm.pmm.claim start count } : Vmm).tableAt path = vmm.tableAt path := by
  induction path with
  | nil => rfl
  | cons index parent ih =>
    have parentShort : parent.length ≤ 2 := Nat.le_of_succ_le_succ short
    have sameParent := ih (by omega)
    cases parentAt : vmm.tableAt parent with
    | none => rw [tableAt_below_none (sameParent.trans parentAt), tableAt_below_none parentAt]
    | some table =>
      have used := (formed.used parent table (by omega) parentAt).2
      have outside : ¬ (start ≤ table ∧ table < start + count) := by
        intro inside
        rw [free.2 table inside.1 inside.2] at used
        cases used
      rw [tableAt_cons (sameParent.trans parentAt), tableAt_cons parentAt,
        claim_entry free outside]

theorem runFree_of_free (free : frame ∈ freeFrames vmm.pmm) : vmm.pmm.RunFree frame 1 :=
  (vmm.pmm.runFree_one frame).mpr (mem_freeFrames.mp free)

theorem claimed_entry {table : Nat} (free : frame ∈ freeFrames vmm.pmm) (other : table ≠ frame)
    (index : Fin 512) :
    (vmm.claimed frame).entry table index = vmm.entry table index :=
  claim_entry (runFree_of_free free) (by omega) index

section

variable (formed : vmm.WellFormed) (free : frame ∈ freeFrames vmm.pmm)

include formed free

theorem claimed_tableAt
    (path : List (Fin 512)) (short : path.length ≤ 3) :
    (vmm.claimed frame).tableAt path = vmm.tableAt path :=
  claim_tableAt formed (runFree_of_free free) path short

theorem claimed_slot
    (path : List (Fin 512)) (short : path.length ≤ 4) :
    (vmm.claimed frame).slot path = vmm.slot path := by
  cases path with
  | nil => rfl
  | cons index parent =>
    have parentShort : parent.length ≤ 3 := Nat.le_of_succ_le_succ short
    have sameParent := claimed_tableAt formed free parent parentShort
    cases parentAt : vmm.tableAt parent with
    | none => rw [slot_below_none (sameParent.trans parentAt), slot_below_none parentAt]
    | some table =>
      have other := frame_ne_table formed free parentShort parentAt
      rw [slot_cons (sameParent.trans parentAt), slot_cons parentAt, claimed_entry free other]

theorem claimed_wellFormed :
    (vmm.claimed frame).WellFormed := by
  have view := fun path short => claimed_tableAt formed free path short
  refine
    { distinct := ?_
      used := ?_
      absentZero := ?_
      noHuge := ?_ }
  · intro left right table leftShort rightShort atLeft atRight
    rw [view left leftShort] at atLeft
    rw [view right rightShort] at atRight
    exact formed.distinct left right table leftShort rightShort atLeft atRight
  · intro path table short atPath
    rw [view path short] at atPath
    have kept := formed.used path table short atPath
    unfold claimed
    rw [PmmOf.claim_size, PmmOf.claim_used, kept.2, Bool.or_true]
    exact ⟨kept.1, rfl⟩
  · intro path table index short atPath
    rw [view path short] at atPath
    rw [claimed_entry free (frame_ne_table formed free short atPath)]
    exact formed.absentZero path table index short atPath
  · intro path table index short atPath
    rw [view path (by omega)] at atPath
    rw [claimed_entry free (frame_ne_table formed free (by omega) atPath)]
    exact formed.noHuge path table index short atPath

theorem claimed_hugeAt
    (vAddr : Nat) : (vmm.claimed frame).hugeAt vAddr = vmm.hugeAt vAddr := by
  unfold hugeAt
  rw [claimed_slot formed free _ (by simp [ptPath])]

theorem claimed_missing
    {paths : Finset (List (Fin 512))} (pathsShort : ∀ path ∈ paths, path.length ≤ 3) :
    (vmm.claimed frame).missingTables paths = vmm.missingTables paths := by
  unfold missingTables
  apply Finset.filter_congr
  intro path member
  rw [claimed_tableAt formed free path (pathsShort path member)]

end

end Claimed

/-! ### Demand paging -/

/-- A fault can be served: the page is there, or the manager has a frame for it and
for its missing tables.  A 2 MiB leaf drops the low bits of its frame, so the frame
must not lie below 2 MiB. -/
def FaultAffords (vmm : Vmm) (flags faultAddr : Nat) : Prop :=
  vmm.slot (leafSlot flags faultAddr) = none →
    0 ∉ freeFrames vmm.pmm ∧
    (vmm.missingTables (tablesOf (leafTable flags faultAddr))).card + 1 ≤
      (freeFrames vmm.pmm).card ∧
    (flagBit flags 4 = true → ∀ frame ∈ freeFrames vmm.pmm, 512 ≤ frame)

theorem frameField_frame (flags : Nat) {frame : Nat} (bound : frame < 2 ^ 40) :
    frameField flags (frame * 4096) 0 ≠ 0 ↔
      0 < frame ∧ (flagBit flags 4 = true → 512 ≤ frame) := by
  unfold frameField physicalField
  cases flagBit flags 4 with
  | true =>
    simp only [if_true, true_implies]
    omega
  | false =>
    simp only [Bool.false_eq_true, if_false, false_implies, and_true]
    omega

theorem fault_clean_iff {faultAddr : Nat} (formed : vmm.WellFormed)
    (small : flagBit flags 4 = false → vmm.hugeAt faultAddr = false) :
    Clean vmm (Vmm.vmmMap { vmm with pmm := (vmm.pmm.pmmAllocateFrames 1 4096).2 } faultAddr
        (vmm.pmm.pmmAllocateFrames 1 4096).1 1 flags).2 ↔
      vmm.FaultAffords flags faultAddr := by
  have slotShort : (leafSlot flags faultAddr).length ≤ 4 :=
    Nat.succ_le_succ (leafTable_short flags faultAddr)
  have pathsShort : ∀ path ∈ tablesOf (leafTable flags faultAddr), path.length ≤ 3 :=
    fun path member => (tablesOf_short member).trans (leafTable_short flags faultAddr)
  unfold vmmMap
  rw [if_neg (by decide : ¬ 1 = 0)]
  rcases allocate_one_cases vmm.pmm with ⟨frame, free, least, allocated⟩ | ⟨empty, refused⟩
  · have cost := mapPages_clean_iff flags 1 faultAddr (frame * 4096) (vmm.claimed frame)
      (claimed_wellFormed formed free)
      (by
        intro notHuge offset isFirst
        rw [Nat.lt_one_iff.mp isFirst, Nat.mul_zero, Nat.add_zero, claimed_hugeAt formed free]
        exact small notHuge)
    have inRange := (mem_freeFrames.mp free).1
    have bound := vmm.pmm.framesBound
    have lowest : ∀ other ∈ freeFrames vmm.pmm, frame ≤ other := by
      intro other member
      by_contra lower
      exact least other (by omega) member
    rw [allocated]
    apply cost.trans
    rw [mapAffords_one, claimed_slot formed free _ slotShort]
    unfold FaultAffords Affords Supplied
    have remaining : freeFrames (vmm.claimed frame).pmm = (freeFrames vmm.pmm).erase frame :=
      freeFrames_claim vmm.pmm frame
    have someFree := Finset.card_pos.mpr ⟨_, free⟩
    rw [claimed_missing formed free pathsShort, remaining, Finset.card_erase_of_mem free,
      frameField_frame flags (by omega : frame < 2 ^ 40), ← Finset.card_eq_zero, Finset.mem_erase]
    apply imp_congr_right
    intro _absent
    constructor
    · intro both
      have zeroUsed : 0 ∉ freeFrames vmm.pmm := by
        intro zeroFree
        have below := lowest 0 zeroFree
        omega
      refine ⟨zeroUsed, ?_, ?_⟩
      · rcases both.1 with none | ⟨_zeroUsed, enough⟩
        · omega
        · omega
      · intro huge other member
        exact (both.2.2 huge).trans (lowest other member)
    · intro affords
      have positive : 0 < frame := by
        apply Nat.pos_of_ne_zero
        intro zero
        rw [zero] at free
        exact affords.1 free
      refine ⟨Or.inr ⟨fun both => affords.1 both.2, by omega⟩, positive, ?_⟩
      intro huge
      exact affords.2.2 huge frame free
  · have cost := mapPages_clean_iff flags 1 faultAddr 0 vmm formed
      (by
        intro notHuge offset isFirst
        rw [Nat.lt_one_iff.mp isFirst, Nat.mul_zero, Nat.add_zero]
        exact small notHuge)
    have noFrame : frameField flags 0 0 = 0 := by
      unfold frameField
      split <;> rfl
    rw [refused]
    apply cost.trans
    rw [mapAffords_one, noFrame]
    unfold FaultAffords
    rw [empty, Finset.card_empty]
    apply imp_congr_right
    intro _absent
    constructor
    · intro both
      exact absurd rfl both.2
    · intro affords
      exact absurd affords.2.1 (Nat.not_succ_le_zero _)

/-! ### All operations -/

theorem vmaDemandPaging_clean_iff {vma : Vma} {faultAddr : Nat} (formed : vma.vmm.WellFormed)
    (small : ∀ node, Vma.nodeForAddress faultAddr vma = .ok node →
      flagBit (vma.region node).flags 4 = false → vma.vmm.hugeAt faultAddr = false) :
    (∀ result after, Vma.vmaDemandPaging faultAddr vma = .ok (result, after) →
        Clean vma.vmm after.vmm) ↔
      ∀ node, Vma.nodeForAddress faultAddr vma = .ok node → node ≠ 0 →
        (vma.region node).type = .regular →
        vma.vmm.FaultAffords (vma.region node).flags faultAddr := by
  cases found : Vma.nodeForAddress faultAddr vma with
  | error fault =>
    constructor
    · intro _clean node impossible
      cases impossible
    · intro _affords result after run
      unfold Vma.vmaDemandPaging at run
      rw [found] at run
      cases run
  | ok node =>
    have cost := fault_clean_iff formed (small node found)
    have runs : Vma.vmaDemandPaging faultAddr vma = if node = 0 then .ok (1, vma)
        else if (vma.region node).type ≠ .regular then .ok (1, vma)
        else .ok (0, { vma with
          vmm := (Vmm.vmmMap { vma.vmm with pmm := (vma.vmm.pmm.pmmAllocateFrames 1 4096).2 }
            faultAddr (vma.vmm.pmm.pmmAllocateFrames 1 4096).1 1 (vma.region node).flags).2 }) := by
      unfold Vma.vmaDemandPaging
      rw [found]
      rfl
    rw [runs]
    by_cases nowhere : node = 0
    · rw [if_pos nowhere]
      constructor
      · intro _clean other isNode notZero
        cases isNode
        exact absurd nowhere notZero
      · intro _affords result after run
        cases run
        exact clean_refl vma.vmm
    · rw [if_neg nowhere]
      by_cases regular : (vma.region node).type = .regular
      · rw [if_neg (not_not.mpr regular)]
        constructor
        · intro clean other isNode _notZero _regular
          cases isNode
          exact cost.mp (clean _ _ rfl)
        · intro affords result after run
          cases run
          exact cost.mpr (affords node rfl nowhere regular)
      · rw [if_pos regular]
        constructor
        · intro _clean other isNode _notZero isRegular
          cases isNode
          exact absurd isRegular regular
        · intro _affords result after run
          cases run
          exact clean_refl vma.vmm

/-- On well-formed tables, an operation never stores an entry for frame 0 exactly when
the manager can supply the frames it takes, frame 0 is not one of them, and no leaf is
asked to map frame 0.  The ranges of 4 KiB operations lie outside huge pages. -/
theorem vmm_stores_no_frame_zero (vma : Vma) (formed : vma.vmm.WellFormed) :
    (∀ vAddr pAddr pages flags,
      (flagBit flags 4 = false → ∀ offset < pages,
        vma.vmm.hugeAt (vAddr + 4096 * offset) = false) →
      (Clean vma.vmm (vma.vmm.vmmMap vAddr pAddr pages flags).2 ↔
        vma.vmm.MapAffords flags vAddr pAddr pages)) ∧
    (∀ vAddr pages, (∀ offset < pages, vma.vmm.hugeAt (vAddr + 4096 * offset) = false) →
      (Clean vma.vmm (vma.vmm.vmmUnmap vAddr pages).2 ↔
        vma.vmm.Affords (rangePaths vAddr pages))) ∧
    (∀ vAddr, Clean vma.vmm (vma.vmm.vmmGetPhysicalFromVirtual vAddr).2 ↔
      vma.vmm.Affords (vma.vmm.queryPaths vAddr)) ∧
    (∀ vAddr, Clean vma.vmm (vma.vmm.vmmGetPte vAddr).2 ↔
      vma.vmm.Affords (vma.vmm.queryPaths vAddr)) ∧
    (∀ faultAddr,
      (∀ node, Vma.nodeForAddress faultAddr vma = .ok node →
        flagBit (vma.region node).flags 4 = false → vma.vmm.hugeAt faultAddr = false) →
      ((∀ result after, Vma.vmaDemandPaging faultAddr vma = .ok (result, after) →
          Clean vma.vmm after.vmm) ↔
        ∀ node, Vma.nodeForAddress faultAddr vma = .ok node → node ≠ 0 →
          (vma.region node).type = .regular →
          vma.vmm.FaultAffords (vma.region node).flags faultAddr)) := by
  refine ⟨?_, ?_, ?_, ?_, fun faultAddr small => vmaDemandPaging_clean_iff formed small⟩
  · intro vAddr pAddr pages flags small
    have loop := mapPages_clean_iff flags pages vAddr pAddr vma.vmm formed
      (by
        intro notHuge offset inRange
        have width : stride flags = 4096 := by
          unfold stride
          rw [notHuge]
          rfl
        rw [width]
        exact small notHuge offset inRange)
    unfold vmmMap
    split
    · rename_i none
      subst none
      exact loop
    · exact loop
  · intro vAddr pages small
    have loop := unmapPages_clean_iff pages vAddr vma.vmm formed small
    unfold vmmUnmap
    split
    · rename_i none
      subst none
      exact loop
    · exact loop
  · intro vAddr
    rw [vmmGetPhysicalFromVirtual_state]
    exact queried_clean_iff formed
  · intro vAddr
    rw [vmmGetPte_state]
    exact queried_clean_iff formed

def onePageHeap (vmm : Vmm) : Vma :=
  { nodes :=
      { parent := fun _ => 0
        left := fun _ => 0
        right := fun _ => 0
        subtreeMaxDepth := fun _ => 0
        update := fun _ => 0
        data := fun _ => ⟨kernelHeapStart, 4096, .regular, slabFlags, ⟨0, 0⟩⟩
        summary := fun _ => 0 }
    heapRoot := 1
    mmioRoot := 0
    freeList := 0
    freeNodeCount := 0
    inReplenishCycle := false
    vmm := vmm
    slabPages := [] }

theorem vmm_stores_no_frame_zero_emptyTables :
    Clean emptyTables (emptyTables.vmmMap 0x1000 0x5000 1 1).2 ∧
    Clean emptyTables (emptyTables.vmmUnmap 0x1000 1).2 ∧
    Clean emptyTables (emptyTables.vmmGetPhysicalFromVirtual 0x1000).2 ∧
    Clean emptyTables (emptyTables.vmmGetPte 0x1000).2 ∧
    ∃ after, Vma.vmaDemandPaging kernelHeapStart (onePageHeap emptyTables) = .ok (0, after) ∧
      Clean emptyTables after.vmm := by
  obtain ⟨map, unmap, query, pte, fault⟩ :=
    vmm_stores_no_frame_zero (onePageHeap emptyTables) emptyTables_wellFormed
  have zeroUsed : 0 ∉ freeFrames emptyTables.pmm := by decide
  have walk : emptyTables.Affords (walkPaths 0x1000) :=
    Or.inr ⟨zeroUsed, Nat.le_trans (Finset.card_filter_le _ _) (by decide)⟩
  have enough : (emptyTables.missingTables (tablesOf (leafTable slabFlags kernelHeapStart))).card + 1 ≤
      (freeFrames emptyTables.pmm).card :=
    Nat.le_trans (Nat.succ_le_succ (Finset.card_filter_le _ _)) (by decide)
  have notHuge : ¬ flagBit slabFlags 4 = true := by decide
  refine ⟨?_, ?_, (query 0x1000).mpr walk, (pte 0x1000).mpr walk, ?_⟩
  · apply (map 0x1000 0x5000 1 1 (fun _ _ _ => rfl)).mpr
    exact mapAffords_one.mpr (fun _ => ⟨walk, by decide⟩)
  · apply (unmap 0x1000 1 (fun _ _ => rfl)).mpr
    rw [rangePaths, Finset.range_one, Finset.singleton_biUnion]
    exact walk
  · have clean := (fault kernelHeapStart (fun _ _ _ => rfl)).mpr
      (fun _ _ _ _ _ => ⟨zeroUsed, enough, fun huge => absurd huge notHuge⟩)
    exact ⟨_, rfl, clean 0 _ rfl⟩

def exhaustedTables : Vmm :=
  { emptyTables with
    pmm := { emptyTables.pmm with bitmap := fun _ => 0xFF, memoryUsedFrameCount := 8 } }

theorem exhaustedTables_wellFormed : exhaustedTables.WellFormed := by
  have root : ∀ path table, exhaustedTables.tableAt path = some table → path = [] ∧ table = 1 := by
    intro path table here
    cases path with
    | nil => exact ⟨rfl, (Option.some.inj here).symm⟩
    | cons index parent =>
      simp only [tableAt] at here
      split at here
      · cases here
      · cases here
  refine
    { distinct := ?_
      used := ?_
      absentZero := fun _ _ _ _ _ _ => rfl
      noHuge := fun _ _ _ _ _ => rfl }
  · intro left right table _ _ atLeft atRight
    rw [(root left table atLeft).1, (root right table atRight).1]
  · intro path table _ here
    rw [(root path table here).2]
    decide

/-- Without a free frame, `vmm_map` reports success and a table at frame 0 is installed;
queries and `vmm_unmap` install it as well, and demand paging maps the page to frame 0. -/
theorem vmm_stores_frame_zero :
    exhaustedTables.WellFormed ∧
    (∀ table index, ¬ (exhaustedTables.entry table index).FrameZero) ∧
    (exhaustedTables.vmmMap 0x1000 0x5000 1 1).1 = 0 ∧
    ((exhaustedTables.vmmMap 0x1000 0x5000 1 1).2.entry 1 0).FrameZero ∧
    (exhaustedTables.vmmUnmap 0x1000 1).1 = 0 ∧
    ((exhaustedTables.vmmUnmap 0x1000 1).2.entry 1 0).FrameZero ∧
    ((exhaustedTables.vmmGetPhysicalFromVirtual 0x1000).2.entry 1 0).FrameZero ∧
    ((exhaustedTables.vmmGetPte 0x1000).2.entry 1 0).FrameZero ∧
    ∃ after, Vma.vmaDemandPaging kernelHeapStart (onePageHeap exhaustedTables) = .ok (0, after) ∧
      (after.vmm.entry 1 (pml4Index kernelHeapStart)).FrameZero := by
  refine ⟨exhaustedTables_wellFormed, ?_, ?_⟩
  · intro table index zero
    cases zero.1
  · refine ⟨by decide +kernel, by decide +kernel, by decide +kernel, by decide +kernel,
      by decide +kernel, by decide +kernel, _, rfl, by decide +kernel⟩

end Vmm
end Fesos
