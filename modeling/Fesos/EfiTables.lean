/-
The page tables the boot loader builds, as the kernel's walk reads them.

The kernel takes over the loader's memory and root table.  Of the frames it was
given the loader uses each for one purpose, so a table is created in a frame that
holds none, and a mapping changes the leaf of its page only.  After any sequence
of mappings the kernel translates every mapped page by the last mapping of it.
-/

import Fesos.Efi
import Fesos.Library.Bitmaps
import Fesos.VmmMap

set_option autoImplicit false

namespace Fesos

open Library List Function

def framesOf (ranges : List (Nat × Nat)) : List Nat :=
  ranges.flatMap (fun range => List.range' range.1 range.2)

theorem framesOf_append (left right : List (Nat × Nat)) :
    framesOf (left ++ right) = framesOf left ++ framesOf right :=
  flatMap_append

namespace Loader

/-- The kernel's state once it runs on the loader's memory and tables. -/
def handOver (loader : Loader) (kernel : Vmm) : Vmm :=
  kernel.onMemory loader.ram loader.pml4

def noted (loader : Loader) (frame : Nat) : Bool := Bitmap.bit loader.bitmap frame

def handedOut (loader : Loader) : List Nat := framesOf loader.allocated

structure Fresh (loader : Loader) : Prop where
  distinct : loader.handedOut.Nodup
  bound : ∀ frame ∈ loader.handedOut, frame < 2 ^ 40

def took (loader : Loader) (frame pages : Nat) : Loader :=
  { loader with allocated := (frame, pages) :: loader.allocated }

variable {after first loader second third : Loader}

theorem allocatePages_ok {firmware : Firmware} {pages : Nat} {message : String}
    {answer : Nat × Loader} (returned : loader.allocatePages firmware pages message = .ok answer) :
    answer.2 = loader.took answer.1 pages := by
  unfold allocatePages at returned
  split at returned
  · cases returned
  · cases returned
    rfl

theorem allocatePages_returns {firmware : Firmware} {pages : Nat}
    {message : String} (answers : ∀ call, ∃ frame, firmware.allocatePages call = .ok frame) :
    ∃ frame, loader.allocatePages firmware pages message = .ok (frame, loader.took frame pages) := by
  obtain ⟨frame, answered⟩ := answers loader.allocated.length
  apply Exists.intro frame
  unfold allocatePages
  rw [answered]
  rfl

theorem setBitmapBit_noted (loader : Loader) (changed frame : Nat) :
    (loader.setBitmapBit changed).noted frame =
      (decide (frame = changed) || loader.noted frame) :=
  Bitmap.bit_setBit loader.bitmap changed frame

/-! ### What the operations leave alone -/

/-- Between the two states frames were handed out, only such frames were noted in
the bitmap, and none was unset. -/
structure Extends (before after : Loader) : Prop where
  history : ∃ answers marks, after.allocated = answers ++ before.allocated ∧
    after.marked = marks ++ before.marked ∧ (∀ frame ∈ marks, frame ∈ framesOf answers) ∧
    ∀ frame, after.noted frame = (decide (frame ∈ marks) || before.noted frame)
  root : after.pml4 = before.pml4
  bootInfo : after.bootInfo = before.bootInfo
  bitmapAddress : after.memoryBitmapAddress = before.memoryBitmapAddress
  bitmapSize : after.memoryBitmapSize = before.memoryBitmapSize
  totalFrames : after.memoryPhysicalTotalFrames = before.memoryPhysicalTotalFrames

theorem Extends.refl (loader : Loader) : Extends loader loader where
  history := ⟨[], [], rfl, rfl, by simp, by simp⟩
  root := rfl
  bootInfo := rfl
  bitmapAddress := rfl
  bitmapSize := rfl
  totalFrames := rfl

theorem Extends.trans (left : Extends first second)
    (right : Extends second third) : Extends first third where
  history := by
    obtain ⟨answers, marks, allocated, marked, inside, bits⟩ := left.history
    obtain ⟨answers', marks', allocated', marked', inside', bits'⟩ := right.history
    refine ⟨answers' ++ answers, marks' ++ marks, ?_, ?_, ?_, ?_⟩
    · rw [allocated', allocated, append_assoc]
    · rw [marked', marked, append_assoc]
    · intro frame member
      rw [framesOf_append, mem_append]
      rcases mem_append.mp member with later | earlier
      · exact Or.inl (inside' frame later)
      · exact Or.inr (inside frame earlier)
    · intro frame
      rw [bits', bits, ← Bool.or_assoc]
      congr 1
      simp
  root := right.root.trans left.root
  bootInfo := right.bootInfo.trans left.bootInfo
  bitmapAddress := right.bitmapAddress.trans left.bitmapAddress
  bitmapSize := right.bitmapSize.trans left.bitmapSize
  totalFrames := right.totalFrames.trans left.totalFrames

variable {frame : Nat}

theorem Extends.handedOut {before : Loader} (extends_ : Extends before after)
    (member : frame ∈ before.handedOut) : frame ∈ after.handedOut := by
  obtain ⟨answers, _marks, allocated, _rest⟩ := extends_.history
  unfold Loader.handedOut at member ⊢
  rw [allocated, framesOf_append]
  exact mem_append_right _ member

theorem Extends.noted {before : Loader} (extends_ : Extends before after)
    (isNoted : before.noted frame = true) : after.noted frame = true := by
  obtain ⟨_answers, _marks, _allocated, _marked, _inside, bits⟩ := extends_.history
  rw [bits, isNoted, Bool.or_true]

theorem Fresh.before {before : Loader} (fresh : after.Fresh)
    (extends_ : Extends before after) : before.Fresh where
  distinct := by
    obtain ⟨answers, _marks, allocated, _rest⟩ := extends_.history
    have all := fresh.distinct
    unfold Loader.handedOut at all
    rw [allocated, framesOf_append] at all
    exact (nodup_append.mp all).2.1
  bound := fun frame member => fresh.bound frame (extends_.handedOut member)

theorem Fresh.new (fresh : (loader.took frame 1).Fresh) :
    frame ∉ loader.handedOut ∧ frame < 2 ^ 40 := by
  have whole : (loader.took frame 1).handedOut = frame :: loader.handedOut := rfl
  have all := fresh.distinct
  rw [whole] at all
  constructor
  · exact (nodup_cons.mp all).1
  · apply fresh.bound
    rw [whole]
    exact mem_cons_self

theorem took_extends (loader : Loader) (frame pages : Nat) :
    Extends loader (loader.took frame pages) where
  history := ⟨[(frame, pages)], [], rfl, rfl, by simp, by simp [took, noted]⟩
  root := rfl
  bootInfo := rfl
  bitmapAddress := rfl
  bitmapSize := rfl
  totalFrames := rfl

structure Untouched (before after : Loader) : Prop where
  bytes : after.bytes = before.bytes
  segmentFrames : after.segmentFrames = before.segmentFrames
  stackFrames : after.stackFrames = before.stackFrames

theorem Untouched.refl (loader : Loader) : Untouched loader loader :=
  { bytes := rfl
    segmentFrames := rfl
    stackFrames := rfl }

theorem Untouched.trans (left : Untouched first second)
    (right : Untouched second third) : Untouched first third :=
  { bytes := right.bytes.trans left.bytes
    segmentFrames := right.segmentFrames.trans left.segmentFrames
    stackFrames := right.stackFrames.trans left.stackFrames }

/-! ### One step of the walk -/

inductive WalkStep (loader : Loader) (table : Nat) (index : Fin 512) : Nat × Loader → Prop where
  | follow (present : (loader.ram table index).present = true) :
      WalkStep loader table index ((loader.ram table index).physicalAddress, loader)
  | create (frame : Nat) (absent : (loader.ram table index).present = false) :
      WalkStep loader table index (frame, (loader.took frame 1).withTable table index frame)

section Walk

variable {loader : Loader} {firmware : Firmware} {table : Nat} {index : Fin 512}

variable {result : Nat × Loader}

theorem walk_ok
    (returned : loader.walkAndCrateNextTable firmware table index = .ok result) :
    WalkStep loader table index result := by
  unfold walkAndCrateNextTable at returned
  cases presence : (loader.ram table index).present with
  | true =>
    rw [presence, if_neg (by decide)] at returned
    cases returned
    exact WalkStep.follow presence
  | false =>
    rw [presence, if_pos rfl] at returned
    obtain ⟨answer, allocated, rest⟩ := bind_eq_ok returned
    cases rest
    rw [allocatePages_ok allocated]
    exact WalkStep.create answer.1 presence

theorem walk_returns (answers : ∀ call, ∃ frame, firmware.allocatePages call = .ok frame) :
    ∃ result, loader.walkAndCrateNextTable firmware table index = .ok result := by
  unfold walkAndCrateNextTable
  split
  · obtain ⟨frame, answered⟩ := allocatePages_returns answers
    rw [answered]
    exact ⟨_, rfl⟩
  · exact ⟨_, rfl⟩

theorem WalkStep.extends (step : WalkStep loader table index result) :
    Extends loader result.2 := by
  cases step with
  | follow present => exact Extends.refl loader
  | create frame absent =>
    exact
      { history := ⟨[(frame, 1)], [frame], rfl, rfl, by simp [framesOf], by
          intro other
          simp only [mem_singleton]
          exact setBitmapBit_noted _ frame other⟩
        root := rfl
        bootInfo := rfl
        bitmapAddress := rfl
        bitmapSize := rfl
        totalFrames := rfl }

theorem WalkStep.untouched (step : WalkStep loader table index result) :
    Untouched loader result.2 := by
  cases step with
  | follow present => exact Untouched.refl loader
  | create frame absent => exact ⟨rfl, rfl, rfl⟩

theorem withTable_ram (frame : Nat) (apart : table ≠ frame) (other : Nat) (position : Fin 512) :
    (loader.withTable table index frame).ram other position =
      if other = table ∧ position = index then Vmm.tableEntry (loader.ram table index) frame
      else if other = frame then PageTableEntry.zero
      else loader.ram other position := by
  change Function.update (Function.update loader.ram frame _) table _ other position = _
  by_cases atTable : other = table
  · subst other
    rw [update_self, if_neg apart]
    change Function.update (Function.update loader.ram frame _ table) index _ position = _
    rw [update_of_ne apart]
    by_cases atIndex : position = index
    · subst position
      rw [update_self, if_pos ⟨rfl, rfl⟩]
      change Vmm.tableEntry (Function.update loader.ram frame _ table index) frame = _
      rw [update_of_ne apart]
    · rw [update_of_ne atIndex, if_neg (fun both => atIndex both.2)]
  · rw [update_of_ne atTable, if_neg (fun both => atTable both.1)]
    by_cases atFrame : other = frame
    · subst other
      rw [update_self, if_pos rfl]
    · rw [update_of_ne atFrame, if_neg atFrame]

end Walk

/-! ### The tree of tables -/

/-- The tables are a tree of distinct frames the loader was given, all below the
root are noted in the bitmap, and there are no huge pages. -/
structure Tabled (kernel : Vmm) (loader : Loader) : Prop where
  shaped : (loader.handOver kernel).Shaped
  held : ∀ path table, path.length ≤ 3 → (loader.handOver kernel).tableAt path = some table →
    table ∈ loader.handedOut ∧ (path ≠ [] → loader.noted table = true)
  flat : ∀ vAddr, (loader.handOver kernel).hugeAt vAddr = false

structure Walked (kernel : Vmm) (before after : Loader) (depth : Nat) : Prop where
  tabled : Tabled kernel after
  sameSlot : ∀ other, depth < other.length → other.length ≤ 4 →
    (after.handOver kernel).slot other = (before.handOver kernel).slot other

theorem Walked.refl {kernel : Vmm} (depth : Nat)
    (tabled : Tabled kernel loader) : Walked kernel loader loader depth :=
  { tabled := tabled
    sameSlot := fun _ _ _ => rfl }

theorem Walked.trans {kernel : Vmm} {shallow depth : Nat}
    (left : Walked kernel first second shallow) (right : Walked kernel second third depth)
    (deeper : shallow ≤ depth) : Walked kernel first third depth where
  tabled := right.tabled
  sameSlot := by
    intro other below short
    rw [right.sameSlot other below short, left.sameSlot other (by omega) short]

section Tables

variable {kernel : Vmm} {loader : Loader} {firmware : Firmware} {path : List (Fin 512)}
  {table : Nat} {index : Fin 512}

theorem withTable_created (tabled : Tabled kernel loader) (short : path.length ≤ 2)
    (here : (loader.handOver kernel).tableAt path = some table)
    (absent : (loader.ram table index).present = false) {frame : Nat}
    (fresh : (loader.took frame 1).Fresh) :
    Vmm.Created (loader.handOver kernel)
      (((loader.took frame 1).withTable table index frame).handOver kernel) path table index
      frame := by
  have fits := fresh.new
  have others : ∀ other otherTable, other.length ≤ 3 →
      (loader.handOver kernel).tableAt other = some otherTable → otherTable ≠ frame := by
    intro other otherTable otherShort atOther same
    apply fits.1
    rw [← same]
    exact (tabled.held other otherTable otherShort atOther).1
  exact
    { short := short
      here := here
      absent := absent
      fresh := others
      named := Nat.mod_eq_of_lt fits.2
      root := rfl
      entries := fun other position => withTable_ram frame
        (others path table (Nat.le_succ_of_le short) here) other position }

variable {result : Nat × Loader}

theorem walk_reaches (tabled : Tabled kernel loader) (short : path.length ≤ 2)
    (here : (loader.handOver kernel).tableAt path = some table)
    (small : ∀ entry, (loader.handOver kernel).slot (index :: path) = some entry →
      entry.hugePage = false) (step : WalkStep loader table index result)
    (fresh : result.2.Fresh) :
    Walked kernel loader result.2 (path.length + 1) ∧
      (result.2.handOver kernel).tableAt (index :: path) = some result.1 := by
  have grown := step.extends
  cases step with
  | follow present =>
    have held : (loader.handOver kernel).slot (index :: path) = some (loader.ram table index) := by
      rw [Vmm.slot_cons here]
      exact if_pos present
    have leads : (loader.ram table index).isTable = true := by
      unfold PageTableEntry.isTable
      rw [present, small _ held]
      rfl
    constructor
    · exact Walked.refl _ tabled
    · rw [Vmm.tableAt_cons here]
      exact if_pos leads
  | create frame absent =>
    have answered : (loader.took frame 1).Fresh :=
      { distinct := fresh.distinct
        bound := fresh.bound }
    have created := withTable_created tabled short here absent answered
    have inReach : (index :: path).length ≤ 3 := Nat.succ_le_succ short
    have newNoted : ((loader.took frame 1).withTable table index frame).noted frame = true := by
      change (setBitmapBit _ frame).noted frame = true
      rw [setBitmapBit_noted, decide_eq_true rfl, Bool.true_or]
    constructor
    · exact
        { tabled :=
            { shaped := created.shaped tabled.shaped
              held := by
                intro other otherTable otherShort atOther
                rw [created.tableAt tabled.shaped other otherShort] at atOther
                by_cases isNew : other = index :: path
                · rw [if_pos isNew] at atOther
                  cases atOther
                  exact ⟨mem_cons_self, fun _ => newNoted⟩
                · rw [if_neg isNew] at atOther
                  have old := tabled.held other otherTable otherShort atOther
                  exact ⟨grown.handedOut old.1, fun below => grown.noted (old.2 below)⟩
              flat := fun vAddr => (created.hugeAt tabled.shaped vAddr).trans
                (tabled.flat vAddr) }
          sameSlot := created.sameSlot tabled.shaped }
    · rw [created.tableAt tabled.shaped _ inReach, if_pos rfl]

def walkTo (loader : Loader) (firmware : Firmware) : List (Fin 512) → Except Halt (Nat × Loader)
  | [] => .ok (loader.pml4, loader)
  | index :: path => do
    let parent ← loader.walkTo firmware path
    parent.2.walkAndCrateNextTable firmware parent.1 index

theorem walkTo_extends (path : List (Fin 512))
    (returned : loader.walkTo firmware path = .ok result) :
    Extends loader result.2 ∧ Untouched loader result.2 := by
  induction path generalizing result with
  | nil =>
    cases returned
    exact ⟨Extends.refl loader, Untouched.refl loader⟩
  | cons index parent ih =>
    obtain ⟨above, reached, stepped⟩ := bind_eq_ok returned
    have step := walk_ok stepped
    have before := ih reached
    exact ⟨before.1.trans step.extends, before.2.trans step.untouched⟩

theorem walkTo_returns (answers : ∀ call, ∃ frame, firmware.allocatePages call = .ok frame)
    (path : List (Fin 512)) : ∃ result, loader.walkTo firmware path = .ok result := by
  induction path with
  | nil => exact ⟨_, rfl⟩
  | cons index parent ih =>
    obtain ⟨above, reached⟩ := ih
    unfold walkTo
    rw [reached]
    exact walk_returns answers

theorem walkTo_reaches (path : List (Fin 512)) (short : path.length ≤ 3)
    (tabled : Tabled kernel loader)
    (small : ∀ entry, (loader.handOver kernel).slot path = some entry → entry.hugePage = false) (returned : loader.walkTo firmware path = .ok result)
    (fresh : result.2.Fresh) :
    Walked kernel loader result.2 path.length ∧
      (result.2.handOver kernel).tableAt path = some result.1 := by
  induction path generalizing result with
  | nil =>
    cases returned
    exact ⟨Walked.refl _ tabled, rfl⟩
  | cons index parent ih =>
    have parentShort : parent.length ≤ 2 := Nat.le_of_succ_le_succ short
    obtain ⟨above, reached, stepped⟩ := bind_eq_ok returned
    have step := walk_ok stepped
    have toParent := ih (by omega)
      (fun entry held => Vmm.slot_high tabled.shaped parentShort held) reached
      (fresh.before step.extends)
    have sameSlot := toParent.1.sameSlot (index :: parent) (Nat.lt_succ_self _)
      (Nat.le_succ_of_le short)
    have toTable := walk_reaches toParent.1.tabled parentShort toParent.2
      (by rw [sameSlot]; exact small) step fresh
    exact ⟨toParent.1.trans toTable.1 (Nat.le_succ _), toTable.2⟩

end Tables

/-! ### One mapping -/

section Map

variable {kernel : Vmm} {before after : Loader} {firmware : Firmware} {vaddr paddr flags : Nat}

theorem mapVaddrToPaddr_eq (notHuge : Vmm.flagBit flags 4 = false) :
    before.mapVaddrToPaddr firmware vaddr paddr flags =
      (before.walkTo firmware (Vmm.ptPath vaddr) >>= fun pt =>
        .ok (pt.2.storeEntry pt.1 (Vmm.ptIndex vaddr)
          (Vmm.smallLeaf (pt.2.ram pt.1 (Vmm.ptIndex vaddr)) paddr flags))) := by
  unfold mapVaddrToPaddr
  simp only [Vmm.ptPath, walkTo, notHuge, Bool.false_eq_true, if_false, bind_assoc]
  rfl

theorem mapVaddrToPaddr_ok (notHuge : Vmm.flagBit flags 4 = false)
    (mapped : before.mapVaddrToPaddr firmware vaddr paddr flags = .ok after) :
    ∃ pt middle old, before.walkTo firmware (Vmm.ptPath vaddr) = .ok (pt, middle) ∧
      after = middle.storeEntry pt (Vmm.ptIndex vaddr) (Vmm.smallLeaf old paddr flags) := by
  rw [mapVaddrToPaddr_eq notHuge] at mapped
  obtain ⟨pt, walked, stored⟩ := bind_eq_ok mapped
  cases stored
  exact ⟨pt.1, pt.2, _, walked, rfl⟩

theorem storeEntry_extends (loader : Loader) (table : Nat) (index : Fin 512)
    (value : PageTableEntry) : Extends loader (loader.storeEntry table index value) where
  history := ⟨[], [], rfl, rfl, by simp, by simp [storeEntry, noted]⟩
  root := rfl
  bootInfo := rfl
  bitmapAddress := rfl
  bitmapSize := rfl
  totalFrames := rfl

theorem mapVaddrToPaddr_extends (notHuge : Vmm.flagBit flags 4 = false)
    (mapped : before.mapVaddrToPaddr firmware vaddr paddr flags = .ok after) :
    Extends before after ∧ Untouched before after := by
  obtain ⟨pt, middle, old, walked, isStore⟩ := mapVaddrToPaddr_ok notHuge mapped
  have toPt := walkTo_extends _ walked
  rw [isStore]
  exact ⟨toPt.1.trans (storeEntry_extends _ _ _ _), toPt.2.trans ⟨rfl, rfl, rfl⟩⟩

theorem mapVaddrToPaddr_returns (notHuge : Vmm.flagBit flags 4 = false)
    (answers : ∀ call, ∃ frame, firmware.allocatePages call = .ok frame) :
    ∃ after, before.mapVaddrToPaddr firmware vaddr paddr flags = .ok after := by
  obtain ⟨result, walked⟩ : ∃ result, before.walkTo firmware (Vmm.ptPath vaddr) = .ok result :=
    walkTo_returns answers _
  rw [mapVaddrToPaddr_eq notHuge, walked]
  exact ⟨_, rfl⟩

/-- The leaves after a mapping are the old ones with a new leaf for its page. -/
structure MappedPage (kernel : Vmm) (before after : Loader) (vaddr paddr flags : Nat) :
    Prop where
  tabled : Tabled kernel after
  leaves : ∃ old, ∀ other, (after.handOver kernel).leaf other =
    if Vmm.page other = Vmm.page vaddr then some (Vmm.smallLeaf old paddr flags)
    else (before.handOver kernel).leaf other

theorem mapVaddrToPaddr_maps (tabled : Tabled kernel before)
    (notHuge : Vmm.flagBit flags 4 = false)
    (mapped : before.mapVaddrToPaddr firmware vaddr paddr flags = .ok after)
    (fresh : after.Fresh) : MappedPage kernel before after vaddr paddr flags := by
  obtain ⟨pt, middle, old, walked, isStore⟩ := mapVaddrToPaddr_ok notHuge mapped
  have stored := storeEntry_extends middle pt (Vmm.ptIndex vaddr) (Vmm.smallLeaf old paddr flags)
  rw [isStore] at fresh ⊢
  have toPt := walkTo_reaches (Vmm.ptPath vaddr) (by simp [Vmm.ptPath]) tabled
    (fun entry held => Vmm.slot_of_not_huge (tabled.flat vaddr) held) walked
    (fresh.before stored)
  have shaped := toPt.1.tabled.shaped
  have atPt := toPt.2
  -- the loader's store and the kernel's store differ in the kernel's history only
  generalize value : Vmm.smallLeaf old paddr flags = leaf at *
  have root : ((middle.storeEntry pt (Vmm.ptIndex vaddr) leaf).handOver kernel).pml4 =
      ((middle.handOver kernel).storeEntry pt (Vmm.ptIndex vaddr) leaf).pml4 := rfl
  have memory : ∀ table index,
      ((middle.storeEntry pt (Vmm.ptIndex vaddr) leaf).handOver kernel).entry table index =
        ((middle.handOver kernel).storeEntry pt (Vmm.ptIndex vaddr) leaf).entry table index :=
    fun _ _ => rfl
  have terminal : (middle.handOver kernel).Terminal (Vmm.ptPath vaddr) pt (Vmm.ptIndex vaddr)
      leaf := Or.inl rfl
  have present : leaf.present = true := by
    rw [← value]
    rfl
  constructor
  · refine
      { shaped := Vmm.Shaped.congr root memory (Vmm.storeSlot_shaped shaped
          (by simp [Vmm.ptPath]) (by simp [Vmm.ptPath]) atPt terminal (Or.inl present))
        held := ?_
        flat := ?_ }
    · intro path table short here
      rw [Vmm.tableAt_congr root memory,
        Vmm.storeSlot_tableAt shaped (by simp [Vmm.ptPath]) atPt terminal path short] at here
      exact toPt.1.tabled.held path table short here
    · intro other
      unfold Vmm.hugeAt
      rw [Vmm.slot_congr root memory]
      exact (Vmm.storeLeaf_hugeAt shaped atPt leaf other).trans (toPt.1.tabled.flat other)
  · apply Exists.intro old
    intro other
    unfold Vmm.leaf
    rw [Vmm.slot_congr root memory]
    have view := Vmm.storeLeaf_leaf shaped atPt leaf other
    have sameLeaf := toPt.1.sameSlot (Vmm.ptIndex other :: Vmm.ptPath other)
      (by simp [Vmm.ptPath]) (by simp [Vmm.ptPath])
    unfold Vmm.leaf at view
    rw [view, sameLeaf, present, value]
    rfl

end Map

/-! ### Sequences of mappings -/

structure MapCall where
  vaddr : Nat
  paddr : Nat
  flags : Nat
  deriving DecidableEq, Repr

def mapAll (firmware : Firmware) : List MapCall → Loader → Except Halt Loader
  | [], loader => .ok loader
  | call :: rest, loader => do
    let mapped ← loader.mapVaddrToPaddr firmware call.vaddr call.paddr call.flags
    mapAll firmware rest mapped

def lastFor (calls : List MapCall) (vAddr : Nat) : Option MapCall :=
  calls.reverse.find? (fun call => decide (Vmm.page call.vaddr = Vmm.page vAddr))

theorem lastFor_cons (call : MapCall) (rest : List MapCall) (vAddr : Nat) :
    lastFor (call :: rest) vAddr =
      (lastFor rest vAddr).or
        (if Vmm.page call.vaddr = Vmm.page vAddr then some call else none) := by
  unfold lastFor
  rw [reverse_cons, List.find?_append]
  congr 1
  by_cases same : Vmm.page call.vaddr = Vmm.page vAddr
  · simp [same]
  · simp [same]

section Sequence

variable {kernel : Vmm} {firmware : Firmware}

variable {calls : List MapCall} {loader : Loader}

theorem mapAll_extends {final : Loader}
    (small : ∀ call ∈ calls, Vmm.flagBit call.flags 4 = false)
    (returned : mapAll firmware calls loader = .ok final) : Extends loader final := by
  induction calls generalizing loader with
  | nil =>
    cases returned
    exact Extends.refl _
  | cons call rest ih =>
    obtain ⟨middle, mapped, others⟩ := bind_eq_ok returned
    have first := mapVaddrToPaddr_extends (small call mem_cons_self) mapped
    exact first.1.trans (ih (fun other member => small other (mem_cons_of_mem _ member))
      others)

theorem mapAll_returns (answers : ∀ call, ∃ frame, firmware.allocatePages call = .ok frame) (small : ∀ call ∈ calls, Vmm.flagBit call.flags 4 = false)
    (loader : Loader) : ∃ final, mapAll firmware calls loader = .ok final := by
  induction calls generalizing loader with
  | nil => exact ⟨loader, rfl⟩
  | cons call rest ih =>
    obtain ⟨middle, mapped⟩ : ∃ middle, loader.mapVaddrToPaddr firmware call.vaddr call.paddr
        call.flags = .ok middle :=
      mapVaddrToPaddr_returns (small call mem_cons_self) answers
    unfold mapAll
    rw [mapped]
    exact ih (fun other member => small other (mem_cons_of_mem _ member)) middle

/-- The leaf of an address after a sequence is the one made by the last call for
its page, or the old one when there is none. -/
theorem mapAll_leaves {final : Loader}
    (tabled : Tabled kernel loader) (small : ∀ call ∈ calls, Vmm.flagBit call.flags 4 = false)
    (returned : mapAll firmware calls loader = .ok final) (fresh : final.Fresh) :
    Tabled kernel final ∧ ∀ vAddr,
      (lastFor calls vAddr = none →
        (final.handOver kernel).leaf vAddr = (loader.handOver kernel).leaf vAddr) ∧
      ∀ call, lastFor calls vAddr = some call →
        ∃ old, (final.handOver kernel).leaf vAddr =
          some (Vmm.smallLeaf old call.paddr call.flags) := by
  induction calls generalizing loader with
  | nil =>
    cases returned
    refine ⟨tabled, fun vAddr => ⟨fun _ => rfl, ?_⟩⟩
    intro call found
    cases found
  | cons call rest ih =>
    have smallRest : ∀ other ∈ rest, Vmm.flagBit other.flags 4 = false :=
      fun other member => small other (mem_cons_of_mem _ member)
    obtain ⟨middle, mapped, others⟩ := bind_eq_ok returned
    have page := mapVaddrToPaddr_maps tabled (small call mem_cons_self) mapped
      (fresh.before (mapAll_extends smallRest others))
    have later := ih page.tabled smallRest others
    apply And.intro later.1
    intro vAddr
    obtain ⟨old, leaves⟩ := page.leaves
    rw [lastFor_cons]
    cases found : lastFor rest vAddr with
    | some last =>
      rw [Option.some_or]
      constructor
      · intro none
        cases none
      · intro same isLast
        exact (later.2 vAddr).2 same (found.trans isLast)
    | none =>
      have kept := (later.2 vAddr).1 found
      rw [leaves vAddr] at kept
      rw [Option.none_or]
      by_cases here : Vmm.page call.vaddr = Vmm.page vAddr
      · rw [if_pos here]
        rw [if_pos here.symm] at kept
        constructor
        · intro none
          cases none
        · intro same isLast
          cases isLast
          exact ⟨old, kept⟩
      · rw [if_neg here]
        rw [if_neg (Ne.symm here)] at kept
        constructor
        · intro _none
          exact kept
        · intro same isLast
          cases isLast

/-- A zeroed root is a tree of one table. -/
theorem tabled_zeroed (held : loader.pml4 ∈ loader.handedOut)
    (zeroed : ∀ index, loader.ram loader.pml4 index = PageTableEntry.zero) :
    Tabled kernel loader ∧ ∀ vAddr, (loader.handOver kernel).leaf vAddr = none := by
  have below : ∀ index, (loader.handOver kernel).tableAt [index] = none := by
    intro index
    apply Vmm.tableAt_absent rfl
    exact congrArg PageTableEntry.present (zeroed index)
  have rootOnly : ∀ path table, (loader.handOver kernel).tableAt path = some table →
      path = [] ∧ table = loader.pml4 := by
    intro path table here
    induction path generalizing table with
    | nil =>
      cases here
      exact ⟨rfl, rfl⟩
    | cons index parent ih =>
      cases parentAt : (loader.handOver kernel).tableAt parent with
      | none =>
        rw [Vmm.tableAt_below_none parentAt] at here
        cases here
      | some parentTable =>
        rw [(ih parentTable parentAt).1, below index] at here
        cases here
  have slots : ∀ path, (loader.handOver kernel).slot path = none := by
    intro path
    cases path with
    | nil => rfl
    | cons index parent =>
      cases parentAt : (loader.handOver kernel).tableAt parent with
      | none => exact Vmm.slot_below_none parentAt
      | some table =>
        obtain ⟨_isRoot, isTable⟩ := rootOnly parent table parentAt
        apply Vmm.slot_absent parentAt
        rw [isTable]
        exact congrArg PageTableEntry.present (zeroed index)
  constructor
  · refine
      { shaped :=
          { distinct := ?_
            absentZero := ?_
            noHuge := ?_ }
        held := ?_
        flat := ?_ }
    · intro left right table _leftShort _rightShort atLeft atRight
      rw [(rootOnly left table atLeft).1, (rootOnly right table atRight).1]
    · intro path table index _short here _absent
      rw [(rootOnly path table here).2]
      exact zeroed index
    · intro path table index _short here
      rw [(rootOnly path table here).2]
      exact congrArg PageTableEntry.hugePage (zeroed index)
    · intro path table _short here
      rw [(rootOnly path table here).2]
      exact ⟨held, fun below => absurd (rootOnly path table here).1 below⟩
    · intro vAddr
      unfold Vmm.hugeAt
      rw [slots]
  · intro vAddr
    exact slots _

end Sequence

def rootOnly : Loader :=
  { bitmap := fun _ => 0
    ram := fun _ _ => PageTableEntry.zero
    bytes := fun _ => 0
    pml4 := 1
    memoryBitmapAddress := 0
    memoryBitmapSize := 0
    memoryPhysicalTotalFrames := 0
    memoryPhysicalUsedFrames := 0
    bootInfo := 0
    allocated := [(1, 1)]
    marked := []
    segmentFrames := []
    stackFrames := [] }

def ampleFirmware : Firmware :=
  { allocatePages := fun call => .ok (call + 1)
    mapSize := fun _ => 0
    descriptorSize := 0
    memoryMap := fun _ => .ok []
    status := fun _ => 0
    fileSize := 0
    file := fun _ => 0
    gdt64 := 0
    gdt64Ptr := 0 }

def threeMappings : List MapCall :=
  [{ vaddr := 0x400000, paddr := 0x5000, flags := 1 },
    { vaddr := 0x400000, paddr := 0x7000, flags := 1 },
    { vaddr := 0x8000000000, paddr := 0x9000, flags := 0 }]

theorem Fresh.of_handedOut {frames : List Nat}
    (all : loader.handedOut = frames) (distinct : frames.Nodup)
    (bound : ∀ frame ∈ frames, frame < 2 ^ 40) : loader.Fresh where
  distinct := all.symm ▸ distinct
  bound := all.symm ▸ bound

/-- After any sequence of mappings that starts with a zeroed root, the kernel
translates a page by the last mapping of it, and no other page is present. -/
theorem boot_map_translates (kernel : Vmm) (firmware : Firmware) (calls : List MapCall)
    (loader : Loader) (held : loader.pml4 ∈ loader.handedOut)
    (zeroed : ∀ index, loader.ram loader.pml4 index = PageTableEntry.zero)
    (small : ∀ call ∈ calls, Vmm.flagBit call.flags 4 = false)
    (aligned : ∀ call ∈ calls, call.paddr % 4096 = 0 ∧ call.paddr < 2 ^ 52)
    (answers : ∀ call, ∃ frame, firmware.allocatePages call = .ok frame)
    (fresh : ∀ final, mapAll firmware calls loader = .ok final → final.Fresh) :
    ∃ final, mapAll firmware calls loader = .ok final ∧ ∀ vAddr,
      (∀ call, lastFor calls vAddr = some call →
        ((final.handOver kernel).vmmGetPhysicalFromVirtual vAddr).1 =
          call.paddr + vAddr % 4096) ∧
      (lastFor calls vAddr = none →
        (final.handOver kernel).leaf vAddr = none ∧
          (final.handOver kernel).hugeAt vAddr = false) := by
  obtain ⟨final, returned⟩ := mapAll_returns answers small loader
  have start : Tabled kernel loader ∧ _ := tabled_zeroed held zeroed
  have built := mapAll_leaves start.1 small returned (fresh final returned)
  refine ⟨final, returned, fun vAddr => ⟨?_, ?_⟩⟩
  · intro call isLast
    obtain ⟨old, mapped⟩ := (built.2 vAddr).2 call isLast
    have member : call ∈ calls := mem_reverse.mp (mem_of_find?_eq_some isLast)
    have fits := aligned call member
    have shifted : call.paddr >>> 12 = call.paddr / 4096 := Nat.shiftRight_eq_div_pow _ 12
    have field : (Vmm.smallLeaf old call.paddr call.flags).physicalAddress =
        call.paddr / 4096 := by
      change physicalField (call.paddr >>> 12) = _
      rw [shifted]
      exact Nat.mod_eq_of_lt (by omega)
    rw [Vmm.vmmGetPhysicalFromVirtual_mapped mapped, field]
    change word _ = _
    rw [word_of_lt (by omega)]
    omega
  · intro never
    exact ⟨((built.2 vAddr).1 never).trans (start.2 vAddr), built.1.flat vAddr⟩


theorem boot_map_translates_threeMappings :
    ∃ final, mapAll ampleFirmware threeMappings rootOnly = .ok final ∧
      ((final.handOver Vmm.emptyTables).vmmGetPhysicalFromVirtual 0x400123).1 = 0x7123 ∧
      (final.handOver Vmm.emptyTables).leaf 0x401000 = none := by
  have handed : (mapAll ampleFirmware threeMappings rootOnly).toOption.map handedOut =
      some [7, 6, 5, 4, 3, 2, 1] := by
    decide +kernel
  have fresh : ∀ final, mapAll ampleFirmware threeMappings rootOnly = .ok final → final.Fresh := by
    intro final returned
    rw [returned] at handed
    exact Fresh.of_handedOut (Option.some.inj handed) (by decide) (by decide)
  obtain ⟨final, returned, view⟩ := boot_map_translates Vmm.emptyTables ampleFirmware
    threeMappings rootOnly (by decide) (fun _ => rfl) (by decide) (by decide)
    (fun call => ⟨call + 1, rfl⟩) fresh
  refine ⟨final, returned, ?_, ?_⟩
  · exact (view 0x400123).1 { vaddr := 0x400000, paddr := 0x7000, flags := 1 }
      (by decide +kernel)
  · exact ((view 0x401000).2 (by decide +kernel)).1

end Loader

end Fesos
