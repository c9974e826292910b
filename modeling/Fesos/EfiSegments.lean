/-
The kernel's segments as the boot loader leaves them in memory.

Round `k` of a segment's loop fills a frame with bytes `4096 * k` on of the
segment and maps it at page `k`.  Rounds touch frames and pages of their own, so
what one round has loaded stays.  The loop variable has 64 bits: when a segment
ends in the last page of the address space it wraps past the end test, and the
loop does not end.
-/

import Fesos.EfiTables

set_option autoImplicit false

namespace Fesos

open Library List

namespace ProgramHeader

def pages (header : ProgramHeader) : Nat := (header.pMemsz + 4095) / 4096

def byte (header : ProgramHeader) (file : Nat → UInt8) (offset : Nat) : UInt8 :=
  if offset < header.pFilesz then file (header.pOffset + offset) else 0

def writeable (header : ProgramHeader) : Bool := header.pFlags.testBit 1

def executable (header : ProgramHeader) : Bool := header.pFlags.testBit 0

/-- The segments a linker makes: page aligned and inside the address space. -/
structure Legal (header : ProgramHeader) : Prop where
  aligned : header.pVaddr % 4096 = 0
  fileFits : header.pFilesz ≤ header.pMemsz
  noWrap : header.pVaddr + header.pMemsz < 2 ^ 64

def EndsEarly (header : ProgramHeader) : Prop := header.pVaddr + header.pMemsz ≤ 2 ^ 64 - 4096

theorem pageFlags_bits (header : ProgramHeader) :
    Vmm.flagBit header.pageFlags 4 = false ∧
      Vmm.flagBit header.pageFlags 0 = header.writeable ∧
      Vmm.flagBit header.pageFlags 6 = !header.executable := by
  have write : header.writeable = decide ((header.pFlags >>> 1) % 2 = 1) := by
    unfold writeable
    rw [Nat.testBit_eq_decide_div_mod_eq, Nat.shiftRight_eq_div_pow]
  have execute : header.executable = decide (header.pFlags % 2 = 1) := by
    unfold executable
    rw [Nat.testBit_eq_decide_div_mod_eq, Nat.pow_zero, Nat.div_one]
  rw [write, execute]
  unfold pageFlags Vmm.flagBit ptGlobal
  generalize header.pFlags >>> 1 = shifted
  rcases Nat.mod_two_eq_zero_or_one shifted with low | low <;>
    rcases Nat.mod_two_eq_zero_or_one header.pFlags with even | even <;>
    rw [low, even] <;> decide

end ProgramHeader

namespace Loader

/-! ### Filling a frame -/

def consumedBefore (header : ProgramHeader) (k : Nat) : Nat := min (4096 * k) header.pFilesz

section Fill

variable {header : ProgramHeader} (legal : header.Legal) (k : Nat)

include legal

theorem sizeToCopy_eq :
    sizeToCopy header (consumedBefore header k) =
      min 4096 (header.pFilesz - consumedBefore header k) := by
  have fits := legal.fileFits
  have small := legal.noWrap
  have within : consumedBefore header k ≤ header.pFilesz := Nat.min_le_right _ _
  unfold sizeToCopy
  rw [wordSub_of_le within (by omega)]
  split
  · omega
  · omega

theorem consumedBefore_succ :
    consumedBefore header k + sizeToCopy header (consumedBefore header k) =
      consumedBefore header (k + 1) := by
  rw [sizeToCopy_eq legal]
  unfold consumedBefore
  omega

theorem fillFrame_inside (file : Nat → UInt8) (loader : Loader) (frame : Nat) {offset : Nat}
    (inPage : offset < 4096) :
    (loader.fillFrame file header frame (consumedBefore header k)).bytes (frame * 4096 + offset) =
      header.byte file (4096 * k + offset) := by
  have size := sizeToCopy_eq legal k
  have inFile : offset < sizeToCopy header (consumedBefore header k) ↔
      4096 * k + offset < header.pFilesz := by
    rw [size]
    unfold consumedBefore
    omega
  unfold fillFrame ProgramHeader.byte
  generalize sizeToCopy header (consumedBefore header k) = copiedSize at size inFile ⊢
  by_cases copied : offset < copiedSize
  · have sameByte : header.pOffset + consumedBefore header k +
        (frame * 4096 + offset - frame * 4096) = header.pOffset + (4096 * k + offset) := by
      unfold consumedBefore
      omega
    rw [if_pos (inFile.mp copied), ← sameByte]
    split
    · simp only [setMem, copyMem]
      rw [if_neg (by omega), if_pos (by omega)]
    · simp only [copyMem]
      rw [if_pos (by omega)]
  · rw [if_neg (fun inside => copied (inFile.mpr inside)), if_pos (by omega)]
    simp only [setMem]
    rw [if_pos (by omega)]

theorem fillFrame_outside (file : Nat → UInt8) (loader : Loader) {frame other : Nat}
    (apart : other ≠ frame) {offset : Nat} (inPage : offset < 4096) :
    (loader.fillFrame file header frame (consumedBefore header k)).bytes (other * 4096 + offset) =
      loader.bytes (other * 4096 + offset) := by
  have size := sizeToCopy_eq legal k
  unfold fillFrame
  generalize sizeToCopy header (consumedBefore header k) = copiedSize at size ⊢
  split
  · simp only [setMem, copyMem]
    rw [if_neg (by omega), if_neg (by omega)]
  · simp only [copyMem]
    rw [if_neg (by omega)]

end Fill

theorem fillFrame_extends (loader : Loader) (file : Nat → UInt8) (header : ProgramHeader)
    (frame consumed : Nat) : Extends loader (loader.fillFrame file header frame consumed) := by
  unfold fillFrame
  split
  · exact
      { history := ⟨[], [], rfl, rfl, by simp, by simp [setMem, copyMem, noted]⟩
        root := rfl
        bootInfo := rfl
        bitmapAddress := rfl
        bitmapSize := rfl
        totalFrames := rfl }
  · exact
      { history := ⟨[], [], rfl, rfl, by simp, by simp [copyMem, noted]⟩
        root := rfl
        bootInfo := rfl
        bitmapAddress := rfl
        bitmapSize := rfl
        totalFrames := rfl }

theorem fillFrame_handOver (loader : Loader) (file : Nat → UInt8) (header : ProgramHeader)
    (frame consumed : Nat) (kernel : Vmm) :
    (loader.fillFrame file header frame consumed).handOver kernel = loader.handOver kernel := by
  unfold fillFrame
  split
  · rfl
  · rfl

/-! ### One round -/

/-- Page `k` of the segment is mapped, with the segment's rights, to a frame that
holds its bytes. -/
def PageLoaded (kernel : Vmm) (file : Nat → UInt8) (loader : Loader) (header : ProgramHeader)
    (k : Nat) : Prop :=
  ∃ entry, (loader.handOver kernel).leaf (header.pVaddr + 4096 * k) = some entry ∧
    entry.physicalAddress ∈ loader.handedOut ∧ entry.writeable = header.writeable ∧
    entry.executeDisable = !header.executable ∧
    ∀ offset < 4096, loader.bytes (entry.physicalAddress * 4096 + offset) =
      header.byte file (4096 * k + offset)

def noteFrame (loader : Loader) (frame : Nat) : Loader :=
  let marked := (loader.setBitmapBit frame).countUsed
  { marked with segmentFrames := frame :: marked.segmentFrames }

section Round

variable {kernel : Vmm} {firmware : Firmware} {file : Nat → UInt8} {header : ProgramHeader}
  {segmentVaddr consumed : Nat} {before after : Loader}

theorem loadPage_ok (loaded : loadPage firmware file header segmentVaddr consumed before = .ok after) :
    ∃ frame mapped,
      ((before.took frame 1).fillFrame file header frame consumed).mapVaddrToPaddr firmware
        segmentVaddr (frame * 4096) header.pageFlags = .ok mapped ∧
      after = mapped.noteFrame frame := by
  obtain ⟨answer, allocated, rest⟩ := bind_eq_ok loaded
  obtain ⟨mapped, isMapped, isNoted⟩ := bind_eq_ok rest
  cases isNoted
  rw [allocatePages_ok allocated] at isMapped
  exact ⟨answer.1, mapped, isMapped, rfl⟩

theorem loadPage_returns (answers : ∀ call, ∃ frame, firmware.allocatePages call = .ok frame) :
    ∃ after, loadPage firmware file header segmentVaddr consumed before = .ok after := by
  obtain ⟨frame, allocated⟩ : ∃ frame, before.allocatePages firmware 1
      "Unable to allocate page for kernel!" = .ok (frame, before.took frame 1) :=
    allocatePages_returns answers
  obtain ⟨mapped, isMapped⟩ : ∃ mapped, ((before.took frame 1).fillFrame file header frame
      consumed).mapVaddrToPaddr firmware segmentVaddr (frame * 4096) header.pageFlags =
        .ok mapped :=
    mapVaddrToPaddr_returns header.pageFlags_bits.1 answers
  unfold loadPage
  rw [allocated]
  change ∃ after, (mapVaddrToPaddr _ firmware segmentVaddr _ _ >>= _) = _
  rw [isMapped]
  exact ⟨_, rfl⟩

theorem noteFrame_extends {frame : Nat} {first mapped : Loader}
    (taken : Extends (first.took frame 1) mapped) : Extends first (mapped.noteFrame frame) where
  history := by
    obtain ⟨answers, marks, allocated, marked, inside, bits⟩ := taken.history
    refine ⟨answers ++ [(frame, 1)], frame :: marks, ?_, ?_, ?_, ?_⟩
    · rw [append_assoc]
      exact allocated
    · exact congrArg (List.cons frame) marked
    · intro other member
      rw [framesOf_append, mem_append]
      rcases mem_cons.mp member with isFrame | earlier
      · rw [isFrame]
        exact Or.inr mem_cons_self
      · exact Or.inl (inside other earlier)
    · intro other
      have setBit := setBitmapBit_noted mapped frame other
      change (mapped.setBitmapBit frame).noted other = _
      rw [setBit, bits, ← Bool.or_assoc]
      congr 1
      simp
  root := taken.root
  bootInfo := taken.bootInfo
  bitmapAddress := taken.bitmapAddress
  bitmapSize := taken.bitmapSize
  totalFrames := taken.totalFrames

theorem loadPage_extends
    (loaded : loadPage firmware file header segmentVaddr consumed before = .ok after) :
    Extends before after := by
  obtain ⟨frame, mapped, isMapped, isNoted⟩ := loadPage_ok loaded
  have filled := fillFrame_extends (before.took frame 1) file header frame consumed
  rw [isNoted]
  exact noteFrame_extends
    (filled.trans (mapVaddrToPaddr_extends header.pageFlags_bits.1 isMapped).1)

theorem Tabled.congr {loader other : Loader} (tabled : Tabled kernel loader)
    (extends_ : Extends loader other) (same : other.handOver kernel = loader.handOver kernel) :
    Tabled kernel other where
  shaped := same.symm ▸ tabled.shaped
  held := by
    intro path table short here
    rw [same] at here
    have old := tabled.held path table short here
    exact ⟨extends_.handedOut old.1, fun below => extends_.noted (old.2 below)⟩
  flat := same.symm ▸ tabled.flat

/-- What a round does to the tables, whatever the header. -/
theorem loadPage_maps (tabled : Tabled kernel before)
    (loaded : loadPage firmware file header segmentVaddr consumed before = .ok after)
    (fresh : after.Fresh) :
    Tabled kernel after ∧ ∃ frame old, frame ∉ before.handedOut ∧ frame < 2 ^ 40 ∧
      frame ∈ after.handedOut ∧
      after.bytes = ((before.took frame 1).fillFrame file header frame consumed).bytes ∧
      ∀ other, (after.handOver kernel).leaf other =
        if Vmm.page other = Vmm.page segmentVaddr then
          some (Vmm.smallLeaf old (frame * 4096) header.pageFlags)
        else (before.handOver kernel).leaf other := by
  obtain ⟨frame, mapped, isMapped, isNoted⟩ := loadPage_ok loaded
  have filledExtends := fillFrame_extends (before.took frame 1) file header frame consumed
  have filledSame := fillFrame_handOver (before.took frame 1) file header frame consumed kernel
  have flags := header.pageFlags_bits
  have mapExtends := mapVaddrToPaddr_extends flags.1 isMapped
  have freshMapped : mapped.Fresh := by
    rw [isNoted] at fresh
    exact { distinct := fresh.distinct, bound := fresh.bound }
  have freshTook := freshMapped.before (filledExtends.trans mapExtends.1)
  have tabledTook : Tabled kernel (before.took frame 1) :=
    tabled.congr (took_extends before frame 1) rfl
  have page := mapVaddrToPaddr_maps (tabledTook.congr filledExtends filledSame) flags.1
    isMapped freshMapped
  obtain ⟨old, leaves⟩ := page.leaves
  rw [filledSame] at leaves
  rw [isNoted]
  constructor
  · refine
      { shaped := page.tabled.shaped
        held := ?_
        flat := page.tabled.flat }
    intro path table short here
    have kept := page.tabled.held path table short here
    apply And.intro kept.1
    intro below
    change (mapped.setBitmapBit frame).noted table = true
    rw [setBitmapBit_noted, kept.2 below, Bool.or_true]
  · exact ⟨frame, old, freshTook.new.1, freshTook.new.2,
      (filledExtends.trans mapExtends.1).handedOut mem_cons_self, mapExtends.2.bytes, leaves⟩

/-- A round loads its page and leaves the other pages as they were. -/
theorem loadPage_loads (legal : header.Legal) {k : Nat}
    (tabled : Tabled kernel before)
    (loaded : loadPage firmware file header (header.pVaddr + 4096 * k) (consumedBefore header k)
      before = .ok after)
    (fresh : after.Fresh) :
    Tabled kernel after ∧ PageLoaded kernel file after header k ∧
      ∀ other otherPage,
        Vmm.page (other.pVaddr + 4096 * otherPage) ≠ Vmm.page (header.pVaddr + 4096 * k) →
        PageLoaded kernel file before other otherPage →
        PageLoaded kernel file after other otherPage := by
  have grown := loadPage_extends loaded
  have flags := header.pageFlags_bits
  obtain ⟨tabledAfter, frame, old, unused, small, owned, sameBytes, leaves⟩ :=
    loadPage_maps tabled loaded fresh
  have field : (Vmm.smallLeaf old (frame * 4096) header.pageFlags).physicalAddress = frame := by
    change physicalField ((frame * 4096) >>> 12) = frame
    rw [Nat.shiftRight_eq_div_pow, Nat.mul_div_cancel frame (by decide)]
    exact Nat.mod_eq_of_lt small
  refine ⟨tabledAfter, ?_, ?_⟩
  · refine ⟨Vmm.smallLeaf old (frame * 4096) header.pageFlags, ?_, ?_, flags.2.1, flags.2.2, ?_⟩
    · rw [leaves, if_pos rfl]
    · rw [field]
      exact owned
    · intro offset inPage
      rw [field, sameBytes]
      exact fillFrame_inside legal k file _ frame inPage
  · intro other otherPage elsewhere earlier
    obtain ⟨entry, mappedBefore, ownedBefore, write, execute, content⟩ := earlier
    have apart : entry.physicalAddress ≠ frame := fun same => unused (same ▸ ownedBefore)
    refine ⟨entry, ?_, grown.handedOut ownedBefore, write, execute, ?_⟩
    · rw [leaves, if_neg elsewhere]
      exact mappedBefore
    · intro offset inPage
      rw [sameBytes, fillFrame_outside legal k file _ apart inPage]
      exact content offset inPage

end Round

/-! ### One segment -/

section Segment

variable {kernel : Vmm} {firmware : Firmware} {file : Nat → UInt8} {header : ProgramHeader}

variable {after before : Loader} {k rounds : Nat}

theorem loadSegment_extends {segmentVaddr consumed : Nat}
    (loaded : loadSegment firmware file header rounds segmentVaddr consumed before = .ok after) :
    Extends before after := by
  induction rounds generalizing segmentVaddr consumed before with
  | zero => cases loaded
  | succ rounds ih =>
    unfold loadSegment at loaded
    split at loaded
    · obtain ⟨middle, page, rest⟩ := bind_eq_ok loaded
      exact (loadPage_extends page).trans (ih rest)
    · cases loaded
      exact Extends.refl _

theorem pages_of_lt (header : ProgramHeader) (k : Nat) :
    4096 * k < header.pMemsz ↔ k < header.pages := by
  unfold ProgramHeader.pages
  omega

/-- The test of the loop, in a round that has not wrapped. -/
theorem segment_test (legal : header.Legal) (k : Nat) :
    header.pVaddr + 4096 * k < word (header.pVaddr + header.pMemsz) ↔ k < header.pages := by
  rw [word_of_lt legal.noWrap, ← pages_of_lt]
  omega

theorem segment_advance (legal : header.Legal) (early : header.EndsEarly)
    (inside : k < header.pages) :
    word (header.pVaddr + 4096 * k + 0x1000) = header.pVaddr + 4096 * (k + 1) := by
  have aligned := legal.aligned
  have within := (pages_of_lt header k).mpr inside
  unfold ProgramHeader.EndsEarly at early
  rw [word_of_lt (by omega)]
  omega

theorem loadSegment_returns (answers : ∀ call, ∃ frame, firmware.allocatePages call = .ok frame)
    (legal : header.Legal) (early : header.EndsEarly)
    (reached : k ≤ header.pages) (enough : header.pages < k + rounds) (before : Loader) :
    ∃ after, loadSegment firmware file header rounds (header.pVaddr + 4096 * k)
      (consumedBefore header k) before = .ok after := by
  induction rounds generalizing k before with
  | zero => omega
  | succ rounds ih =>
    unfold loadSegment
    by_cases inside : k < header.pages
    · obtain ⟨middle, page⟩ : ∃ middle, loadPage firmware file header
          (header.pVaddr + 4096 * k) (consumedBefore header k) before = .ok middle :=
        loadPage_returns answers
      rw [if_pos ((segment_test legal k).mpr inside), page, segment_advance legal early inside,
        consumedBefore_succ legal]
      exact ih (by omega) (by omega) middle
    · rw [if_neg (fun test => inside ((segment_test legal k).mp test))]
      exact ⟨before, rfl⟩

/-- From round `k` on the loop loads the remaining pages of the segment. -/
theorem loadSegment_loads (legal : header.Legal) (early : header.EndsEarly)
    (separate : ∀ left right, left < header.pages → right < header.pages →
      Vmm.page (header.pVaddr + 4096 * left) = Vmm.page (header.pVaddr + 4096 * right) →
      left = right) (tabled : Tabled kernel before)
    (loaded : loadSegment firmware file header rounds (header.pVaddr + 4096 * k)
      (consumedBefore header k) before = .ok after)
    (fresh : after.Fresh) :
    Tabled kernel after ∧
      (∀ page, k ≤ page → page < header.pages → PageLoaded kernel file after header page) ∧
      ∀ other otherPage,
        (∀ page, k ≤ page → page < header.pages →
          Vmm.page (other.pVaddr + 4096 * otherPage) ≠ Vmm.page (header.pVaddr + 4096 * page)) →
        PageLoaded kernel file before other otherPage →
        PageLoaded kernel file after other otherPage := by
  induction rounds generalizing k before with
  | zero => cases loaded
  | succ rounds ih =>
    unfold loadSegment at loaded
    by_cases inside : k < header.pages
    · rw [if_pos ((segment_test legal k).mpr inside)] at loaded
      obtain ⟨middle, page, rest⟩ := bind_eq_ok loaded
      rw [segment_advance legal early inside, consumedBefore_succ legal] at rest
      have first := loadPage_loads legal tabled page (fresh.before (loadSegment_extends rest))
      have later := ih first.1 rest
      refine ⟨later.1, ?_, ?_⟩
      · intro other lower upper
        by_cases isFirst : other = k
        · subst other
          apply later.2.2 header k
          · intro next after inRange same
            have sameRound := separate k next inside inRange same
            omega
          · exact first.2.1
        · exact later.2.1 other (by omega) upper
      · intro other otherPage apart earlier
        apply later.2.2
        · intro next after inRange
          exact apart next (by omega) inRange
        · exact first.2.2 other otherPage (apart k (Nat.le_refl k) inside) earlier
    · rw [if_neg (fun test => inside ((segment_test legal k).mp test))] at loaded
      cases loaded
      refine ⟨tabled, ?_, ?_⟩
      · intro page lower upper
        omega
      · intro other otherPage _apart earlier
        exact earlier

/-- A segment that ends in the last page is never finished: every page-aligned
address passes the test. -/
theorem loadSegment_endless (legal : header.Legal) (late : ¬ header.EndsEarly)
    {segmentVaddr consumed : Nat} (aligned : segmentVaddr % 4096 = 0)
    (small : segmentVaddr < 2 ^ 64) :
    loadSegment firmware file header rounds segmentVaddr consumed before ≠ .ok after := by
  induction rounds generalizing segmentVaddr consumed before with
  | zero =>
    intro loaded
    cases loaded
  | succ rounds ih =>
    intro loaded
    have test : segmentVaddr < word (header.pVaddr + header.pMemsz) := by
      unfold ProgramHeader.EndsEarly at late
      rw [word_of_lt legal.noWrap]
      omega
    unfold loadSegment at loaded
    rw [if_pos test] at loaded
    obtain ⟨middle, _page, rest⟩ := bind_eq_ok loaded
    apply ih _ (word_lt _) rest
    unfold word
    omega

end Segment

/-! ### All segments -/

/-- The pages, as the walk sees them, of the segments to load. -/
def segmentPages (headers : List ProgramHeader) : List Nat :=
  headers.flatMap (fun header =>
    if header.pType = 1 then
      (List.range header.pages).map (fun page => Vmm.page (header.pVaddr + 4096 * page))
    else [])

theorem segmentPages_cons (header : ProgramHeader) (rest : List ProgramHeader) :
    segmentPages (header :: rest) =
      (if header.pType = 1 then
        (List.range header.pages).map (fun page => Vmm.page (header.pVaddr + 4096 * page))
      else []) ++ segmentPages rest := rfl

section Segments

variable {kernel : Vmm} {firmware : Firmware} {file : Nat → UInt8} {headers : List ProgramHeader}

variable {after before : Loader}

theorem loadSegments_extends
    (loaded : loadSegments firmware file headers before = .ok after) : Extends before after := by
  induction headers generalizing before with
  | nil =>
    cases loaded
    exact Extends.refl _
  | cons header rest ih =>
    unfold loadSegments at loaded
    split at loaded
    · exact ih loaded
    · obtain ⟨middle, segment, others⟩ := bind_eq_ok loaded
      exact (loadSegment_extends segment).trans (ih others)

theorem pages_lt_rounds {header : ProgramHeader} (legal : header.Legal) :
    header.pages < 0 + segmentRounds := by
  have small := legal.noWrap
  unfold ProgramHeader.pages segmentRounds
  omega

theorem loadSegments_returns
    (answers : ∀ call, ∃ frame, firmware.allocatePages call = .ok frame)
    (legal : ∀ header ∈ headers, header.pType = 1 → header.Legal)
    (early : ∀ header ∈ headers, header.pType = 1 → header.EndsEarly) (before : Loader) :
    ∃ after, loadSegments firmware file headers before = .ok after := by
  induction headers generalizing before with
  | nil => exact ⟨before, rfl⟩
  | cons header rest ih =>
    have others := ih (fun other member => legal other (mem_cons_of_mem _ member))
      (fun other member => early other (mem_cons_of_mem _ member))
    unfold loadSegments
    by_cases load : header.pType = 1
    · have headLegal := legal header mem_cons_self load
      obtain ⟨middle, segment⟩ : ∃ middle, loadSegment firmware file header segmentRounds
          (header.pVaddr + 4096 * 0) (consumedBefore header 0) before = .ok middle :=
        loadSegment_returns answers headLegal (early header mem_cons_self load)
          (Nat.zero_le _) (pages_lt_rounds headLegal) before
      have start : consumedBefore header 0 = 0 := Nat.zero_min _
      rw [start, Nat.mul_zero, Nat.add_zero] at segment
      rw [if_neg (fun skip => skip load), segment]
      exact others middle
    · rw [if_pos load]
      exact others before

/-- The header loop loads every page of every segment, in frames and pages that
later segments leave alone. -/
theorem loadSegments_loads
    (legal : ∀ header ∈ headers, header.pType = 1 → header.Legal)
    (early : ∀ header ∈ headers, header.pType = 1 → header.EndsEarly)
    (disjoint : (segmentPages headers).Nodup)
    (tabled : Tabled kernel before)
    (loaded : loadSegments firmware file headers before = .ok after) (fresh : after.Fresh) :
    (∀ header ∈ headers, header.pType = 1 → ∀ page < header.pages,
      PageLoaded kernel file after header page) ∧
    ∀ other otherPage,
      Vmm.page (other.pVaddr + 4096 * otherPage) ∉ segmentPages headers →
      PageLoaded kernel file before other otherPage →
      PageLoaded kernel file after other otherPage := by
  induction headers generalizing before with
  | nil =>
    cases loaded
    refine ⟨?_, fun _ _ _ earlier => earlier⟩
    intro header member
    cases member
  | cons header rest ih =>
    rw [segmentPages_cons] at disjoint ⊢
    have legalRest : ∀ other ∈ rest, other.pType = 1 → other.Legal :=
      fun other member => legal other (mem_cons_of_mem _ member)
    have earlyRest : ∀ other ∈ rest, other.pType = 1 → other.EndsEarly :=
      fun other member => early other (mem_cons_of_mem _ member)
    have split := nodup_append.mp disjoint
    unfold loadSegments at loaded
    by_cases load : header.pType = 1
    · rw [if_neg (fun skip => skip load)] at loaded
      rw [if_pos load] at split ⊢
      obtain ⟨middle, segment, others⟩ := bind_eq_ok loaded
      have separate : ∀ left right, left < header.pages → right < header.pages →
          Vmm.page (header.pVaddr + 4096 * left) = Vmm.page (header.pVaddr + 4096 * right) →
          left = right := by
        intro left right leftInside rightInside same
        exact inj_on_of_nodup_map split.1 (mem_range.mpr leftInside)
          (mem_range.mpr rightInside) same
      have start : consumedBefore header 0 = 0 := Nat.zero_min _
      have fromZero : loadSegment firmware file header segmentRounds
          (header.pVaddr + 4096 * 0) (consumedBefore header 0) before = .ok middle := by
        rw [start, Nat.mul_zero, Nat.add_zero]
        exact segment
      have first := loadSegment_loads (legal header mem_cons_self load)
        (early header mem_cons_self load) separate tabled fromZero
        (fresh.before (loadSegments_extends others))
      have later := ih legalRest earlyRest split.2.1 first.1 others
      have headPage : ∀ page < header.pages, Vmm.page (header.pVaddr + 4096 * page) ∈
          (List.range header.pages).map (fun page => Vmm.page (header.pVaddr + 4096 * page)) :=
        fun page inside => mem_map.mpr ⟨page, mem_range.mpr inside, rfl⟩
      constructor
      · intro other member isLoad page inside
        rcases mem_cons.mp member with isHead | inRest
        · subst other
          apply later.2
          · intro again
            exact split.2.2 _ (headPage page inside) _ again rfl
          · exact first.2.1 page (Nat.zero_le page) inside
        · exact later.1 other inRest isLoad page inside
      · intro other otherPage outside earlier
        rw [mem_append, not_or] at outside
        apply later.2 other otherPage outside.2
        apply first.2.2 other otherPage _ earlier
        intro page _lower inside same
        apply outside.1
        rw [same]
        exact headPage page inside
    · rw [if_pos load] at loaded
      rw [if_neg load, nil_append]
      rw [if_neg load, nil_append] at disjoint
      have later := ih legalRest earlyRest disjoint tabled loaded
      refine ⟨?_, later.2⟩
      intro other member isLoad
      rcases mem_cons.mp member with isHead | inRest
      · rw [isHead] at isLoad
        exact absurd isLoad load
      · exact later.1 other inRest isLoad

/-- A segment that ends in the last page keeps the header loop from returning. -/
theorem loadSegments_endless
    (legal : ∀ header ∈ headers, header.pType = 1 → header.Legal) {late : ProgramHeader}
    (member : late ∈ headers) (load : late.pType = 1) (isLate : ¬ late.EndsEarly) : loadSegments firmware file headers before ≠ .ok after := by
  induction headers generalizing before with
  | nil => cases member
  | cons header rest ih =>
    intro loaded
    have legalRest : ∀ other ∈ rest, other.pType = 1 → other.Legal :=
      fun other inRest => legal other (mem_cons_of_mem _ inRest)
    unfold loadSegments at loaded
    by_cases skip : header.pType ≠ 1
    · rw [if_pos skip] at loaded
      rcases mem_cons.mp member with isHead | inRest
      · rw [isHead] at load
        exact skip load
      · exact ih legalRest inRest loaded
    · rw [if_neg skip] at loaded
      obtain ⟨middle, segment, others⟩ := bind_eq_ok loaded
      rcases mem_cons.mp member with isHead | inRest
      · subst late
        have headLegal := legal header mem_cons_self load
        have small := headLegal.noWrap
        exact loadSegment_endless headLegal isLate headLegal.aligned (by omega) segment
      · exact ih legalRest inRest others

end Segments

def SegmentSeen (kernel : Vmm) (file : Nat → UInt8) (loader : Loader) (header : ProgramHeader) :
    Prop :=
  ∀ offset < header.pMemsz, ∃ entry,
    (loader.handOver kernel).leaf (header.pVaddr + offset) = some entry ∧
    loader.bytes (entry.physicalAddress * 4096 + (header.pVaddr + offset) % 4096) =
      (if offset < header.pFilesz then file (header.pOffset + offset) else 0) ∧
    (entry.writeable = true ↔ header.pFlags.testBit 1 = true) ∧
    (entry.executeDisable = true ↔ header.pFlags.testBit 0 = false)

theorem segmentSeen_of_loaded {kernel : Vmm} {file : Nat → UInt8} {loader : Loader}
    {header : ProgramHeader} (legal : header.Legal)
    (loaded : ∀ page < header.pages, PageLoaded kernel file loader header page) :
    SegmentSeen kernel file loader header := by
  intro offset inside
  have inPages : offset / 4096 < header.pages := by
    unfold ProgramHeader.pages
    omega
  obtain ⟨entry, mapped, _owned, write, execute, content⟩ := loaded (offset / 4096) inPages
  have aligned := legal.aligned
  have samePage : Vmm.page (header.pVaddr + offset) =
      Vmm.page (header.pVaddr + 4096 * (offset / 4096)) := by
    unfold Vmm.page
    congr 1
    omega
  have within : (header.pVaddr + offset) % 4096 = offset % 4096 := by omega
  have whole : 4096 * (offset / 4096) + offset % 4096 = offset := by omega
  refine ⟨entry, (Vmm.leaf_congr _ samePage).trans mapped, ?_, ?_, ?_⟩
  · rw [within, content (offset % 4096) (Nat.mod_lt _ (by decide)), whole]
    rfl
  · rw [write]
    rfl
  · rw [execute, Bool.not_eq_true']
    rfl

def oneSegment (vaddr memsz : Nat) : Nat → UInt8 := fun index =>
  if 80 ≤ index ∧ index < 88 then UInt8.ofNat (vaddr >>> (8 * (index - 80)))
  else if 104 ≤ index ∧ index < 112 then UInt8.ofNat (memsz >>> (8 * (index - 104)))
  else
    match index with
    | 0 => 0x7f
    | 1 => 0x45
    | 2 => 0x4c
    | 3 => 0x46
    | 4 => 2
    | 5 => 1
    | 32 => 64
    | 56 => 1
    | 64 => 1
    | 68 => 6
    | 72 => 120
    | 96 => 3
    | 120 => 7
    | 121 => 8
    | 122 => 9
    | _ => 0

def oneHeader (vaddr memsz : Nat) : ProgramHeader :=
  { pType := 1
    pFlags := 6
    pOffset := 120
    pVaddr := vaddr
    pFilesz := 3
    pMemsz := memsz }

/-- The program header loop loads an image exactly when no segment ends in the
last page of the address space. -/
theorem elf_segments_seen_iff (kernel : Vmm) (firmware : Firmware) (file : Nat → UInt8)
    (loader : Loader) (held : loader.pml4 ∈ loader.handedOut)
    (zeroed : ∀ index, loader.ram loader.pml4 index = PageTableEntry.zero)
    (legal : ∀ header ∈ programHeaders file, header.pType = 1 → header.Legal)
    (disjoint : (segmentPages (programHeaders file)).Nodup)
    (answers : ∀ call, ∃ frame, firmware.allocatePages call = .ok frame)
    (fresh : ∀ final, loadSegments firmware file (programHeaders file) loader = .ok final →
      final.Fresh) :
    (∃ final, loadSegments firmware file (programHeaders file) loader = .ok final ∧
      ∀ header ∈ programHeaders file, header.pType = 1 →
        SegmentSeen kernel file final header) ↔
    ∀ header ∈ programHeaders file, header.pType = 1 → header.EndsEarly := by
  constructor
  · intro seen header member load
    obtain ⟨final, loaded, _view⟩ := seen
    by_contra late
    exact loadSegments_endless legal member load late loaded
  · intro early
    obtain ⟨final, loaded⟩ := loadSegments_returns answers legal early loader
    have start : Tabled kernel loader ∧ _ := tabled_zeroed held zeroed
    have pages := loadSegments_loads legal early disjoint start.1 loaded (fresh final loaded)
    refine ⟨final, loaded, ?_⟩
    intro header member load
    exact segmentSeen_of_loaded (legal header member load) (pages.1 header member load)

theorem elf_segments_seen_iff_low :
    ∃ final, loadSegments ampleFirmware (oneSegment 0x400000 0x1800)
        (programHeaders (oneSegment 0x400000 0x1800)) rootOnly = .ok final ∧
      SegmentSeen Vmm.emptyTables (oneSegment 0x400000 0x1800) final
        (oneHeader 0x400000 0x1800) := by
  have headers : programHeaders (oneSegment 0x400000 0x1800) = [oneHeader 0x400000 0x1800] := by
    decide +kernel
  have legal : (oneHeader 0x400000 0x1800).Legal :=
    { aligned := by decide
      fileFits := by decide
      noWrap := by decide }
  have only : ∀ header ∈ programHeaders (oneSegment 0x400000 0x1800),
      header = oneHeader 0x400000 0x1800 := by
    intro header member
    rw [headers] at member
    exact mem_singleton.mp member
  have handed : (loadSegments ampleFirmware (oneSegment 0x400000 0x1800)
      (programHeaders (oneSegment 0x400000 0x1800)) rootOnly).toOption.map handedOut =
        some [6, 5, 4, 3, 2, 1] := by
    decide +kernel
  have fresh : ∀ final, loadSegments ampleFirmware (oneSegment 0x400000 0x1800)
      (programHeaders (oneSegment 0x400000 0x1800)) rootOnly = .ok final → final.Fresh := by
    intro final loaded
    rw [loaded] at handed
    exact Fresh.of_handedOut (Option.some.inj handed) (by decide) (by decide)
  obtain ⟨final, loaded, seen⟩ := (elf_segments_seen_iff Vmm.emptyTables ampleFirmware
    (oneSegment 0x400000 0x1800) rootOnly (by decide) (fun _ => rfl)
    (fun header member _load => (only header member).symm ▸ legal) (by rw [headers]; decide)
    (fun call => ⟨call + 1, rfl⟩) fresh).mpr
    (fun header member _load => (only header member).symm ▸ (by decide : _ ≤ 2 ^ 64 - 4096))
  refine ⟨final, loaded, seen _ ?_ rfl⟩
  rw [headers]
  exact mem_singleton_self _

/-- A segment in the last page is within the address space, and no number of
rounds loads it. -/
theorem elf_segment_endless :
    programHeaders (oneSegment 0xFFFFFFFFFFFFF000 0x800) = [oneHeader 0xFFFFFFFFFFFFF000 0x800] ∧
      (oneHeader 0xFFFFFFFFFFFFF000 0x800).Legal ∧
      (∀ rounds final, loadSegment ampleFirmware (oneSegment 0xFFFFFFFFFFFFF000 0x800)
        (oneHeader 0xFFFFFFFFFFFFF000 0x800) rounds 0xFFFFFFFFFFFFF000 0 rootOnly ≠ .ok final) ∧
      ¬ ∃ final, loadSegments ampleFirmware (oneSegment 0xFFFFFFFFFFFFF000 0x800)
          (programHeaders (oneSegment 0xFFFFFFFFFFFFF000 0x800)) rootOnly = .ok final ∧
        SegmentSeen Vmm.emptyTables (oneSegment 0xFFFFFFFFFFFFF000 0x800) final
          (oneHeader 0xFFFFFFFFFFFFF000 0x800) := by
  have headers : programHeaders (oneSegment 0xFFFFFFFFFFFFF000 0x800) =
      [oneHeader 0xFFFFFFFFFFFFF000 0x800] := by
    decide +kernel
  have legal : (oneHeader 0xFFFFFFFFFFFFF000 0x800).Legal :=
    { aligned := by decide
      fileFits := by decide
      noWrap := by decide }
  have late : ¬ (oneHeader 0xFFFFFFFFFFFFF000 0x800).EndsEarly := by
    unfold ProgramHeader.EndsEarly
    decide
  refine ⟨headers, legal, ?_, ?_⟩
  · intro rounds final
    exact loadSegment_endless legal late (by decide) (by decide)
  · rintro ⟨final, loaded, _seen⟩
    rw [headers] at loaded
    apply loadSegments_endless _ mem_cons_self rfl late loaded
    intro header member _load
    rw [mem_singleton.mp member]
    exact legal

end Loader

end Fesos
