/-
The blocks of the kernel heap.

`Blocks` says of every bucket page held that its descriptor is in order and that
its blocks are either chained as free or handed out; `Placed` ties the lists of
`Threaded` to the descriptors.  Allocating keeps all three, and so does freeing a
block of a page that is not full.
-/

import Fesos.KmallocLists
import Fesos.Library.Chains

set_option autoImplicit false

namespace Fesos

open Library List Function

def bucketSizeOf (index : Nat) : Nat := bucketSizes.getD index 0

def blocksOf (page size : Nat) : List Nat :=
  (List.range (blocksPerPage size)).map (fun position => page + firstBlock size + position * size)

theorem bucket_fits : ∀ index < 7, 0 < bucketSizeOf index ∧
    descriptorSize ≤ firstBlock (bucketSizeOf index) ∧
    firstBlock (bucketSizeOf index) + blocksPerPage (bucketSizeOf index) * bucketSizeOf index ≤ 4096 ∧
    1 < blocksPerPage (bucketSizeOf index) ∧ blocksPerPage (bucketSizeOf index) < 2 ^ 16 := by
  decide

theorem getBucketFromSize_lt : ∀ size ≤ 1024, getBucketFromSize size < 7 := by
  decide +kernel

theorem roundToPages_aligned (size : Nat) : roundToPages size % 4096 = 0 := by
  unfold roundToPages
  by_cases whole : size % 4096 = 0
  · rw [if_pos whole]
    exact whole
  · rw [if_neg whole]
    unfold word
    omega

theorem length_blocksOf (page size : Nat) : (blocksOf page size).length = blocksPerPage size := by
  unfold blocksOf
  rw [length_map, length_range]

theorem nodup_blocksOf (page : Nat) {size : Nat} (positive : 0 < size) :
    (blocksOf page size).Nodup := by
  unfold blocksOf
  apply List.Nodup.map _ nodup_range
  intro first second same
  change page + firstBlock size + first * size = page + firstBlock size + second * size at same
  have products : first * size = second * size := by omega
  exact Nat.eq_of_mul_eq_mul_right positive products

theorem block_mem (page : Nat) {size position : Nat} (small : position < blocksPerPage size) :
    page + firstBlock size + position * size ∈ blocksOf page size :=
  mem_map.mpr ⟨position, mem_range.mpr small, rfl⟩

theorem mem_blocksOf {page index address : Nat} (bounded : index < 7)
    (member : address ∈ blocksOf page (bucketSizeOf index)) :
    page + descriptorSize ≤ address ∧ address + bucketSizeOf index ≤ page + 4096 := by
  obtain ⟨position, inRange, isAddress⟩ := mem_map.mp member
  obtain ⟨_, behind, fits, _⟩ := bucket_fits index bounded
  have before := Nat.mul_le_mul_right (bucketSizeOf index)
    (Nat.succ_le_of_lt (mem_range.mp inRange))
  rw [Nat.succ_mul] at before
  omega

namespace Kmalloc

variable {address page : Nat}

theorem pageOf_block {index : Nat} (bounded : index < 7) (aligned : page % 4096 = 0)
    (member : address ∈ blocksOf page (bucketSizeOf index)) :
    pageOf address = page ∧ address % 4096 ≠ 0 := by
  have inside := mem_blocksOf bounded member
  have positive := (bucket_fits index bounded).1
  unfold descriptorSize at inside
  unfold pageOf
  omega

variable {Regions : Type} {heap after : Kmalloc Regions}

theorem kmalloc_large (source : RegionSource Regions) {size : Nat} (large : 1024 < size)
    (heap : Kmalloc Regions) :
    kmalloc source size heap = (do
      let allocated ← source.allocate (roundToPages size) heap.regions
      pure (allocated.1, { heap with regions := allocated.2 })) := by
  have positive : ¬ size = 0 := by omega
  have whole : getBucketFromSize size = 255 := by
    unfold getBucketFromSize
    exact if_pos large
  unfold kmalloc
  rw [if_neg positive]
  dsimp only
  rw [whole, if_pos rfl]

theorem kmalloc_bucket (source : RegionSource Regions) {size : Nat} (positive : 1 ≤ size)
    (small : size ≤ 1024) (heap : Kmalloc Regions) :
    kmalloc source size heap =
      if heap.head .free (getBucketFromSize size) = 0 then do
        let supplied ← allocatePageForBucket source (getBucketFromSize size) heap
        if supplied.1 ≠ 0 then pure (0, supplied.2)
        else takeBlock (getBucketFromSize size) supplied.2
      else takeBlock (getBucketFromSize size) heap := by
  have bounded := getBucketFromSize_lt size small
  unfold kmalloc
  dsimp only
  rw [if_neg (by omega), if_neg (by omega)]
  rfl

def usedIn (live : List Nat) (page : Nat) : List Nat :=
  live.filter (fun address => pageOf address = page)

theorem mem_usedIn {live : List Nat} (isLive : address ∈ live) (inPage : pageOf address = page) :
    address ∈ usedIn live page :=
  mem_filter.mpr ⟨isLive, decide_eq_true inPage⟩

structure PageSound (heap : Kmalloc Regions) (live : List Nat) (page : Nat) (free : List Nat) :
    Prop where
  aligned : page % 4096 = 0
  nonzero : page ≠ 0
  index : (heap.pages page).bucketIndex < 7
  total : (heap.pages page).totalBlocks =
    blocksPerPage (bucketSizeOf (heap.pages page).bucketIndex)
  trail : Trail heap.links (heap.pages page).freeList free
  blocks : (free ++ usedIn live page).Perm
    (blocksOf page (bucketSizeOf (heap.pages page).bucketIndex))
  inUse : (heap.pages page).blocksInUse = (usedIn live page).length

structure Blocks (heap : Kmalloc Regions) (live : List Nat) (free : Nat → List Nat) : Prop where
  sizes : ∀ index < 7, (heap.buckets index).bucketSize = bucketSizeOf index
  distinct : heap.held.Nodup
  pages : ∀ page ∈ heap.held, heap.PageSound live page (free page)
  live : ∀ address ∈ live, pageOf address ∈ heap.held

def Belongs (heap : Kmalloc Regions) (list : PageList) (index page : Nat) : Prop :=
  page ∈ heap.held ∧ (heap.pages page).bucketIndex = index ∧
    match list with
    | .free => (heap.pages page).blocksInUse < (heap.pages page).totalBlocks
    | .full => (heap.pages page).blocksInUse = (heap.pages page).totalBlocks

def Placed (heap : Kmalloc Regions) (lists : PageList → Nat → List Nat) : Prop :=
  ∀ list index page, page ∈ lists list index ↔ heap.Belongs list index page

section Pages

variable {live free : List Nat} {page : Nat}

section

variable (sound : heap.PageSound live page free)

include sound

theorem PageSound.length :
    free.length + (heap.pages page).blocksInUse = (heap.pages page).totalBlocks := by
  have lengths := sound.blocks.length_eq
  rw [length_append, length_blocksOf] at lengths
  rw [sound.inUse, sound.total]
  exact lengths

theorem PageSound.nodup :
    (free ++ usedIn live page).Nodup :=
  sound.blocks.nodup_iff.mpr (nodup_blocksOf page (bucket_fits _ sound.index).1)

theorem PageSound.block {address : Nat}
    (member : address ∈ free ++ usedIn live page) :
    pageOf address = page ∧ address % 4096 ≠ 0 :=
  pageOf_block sound.index sound.aligned (sound.blocks.mem_iff.mp member)

/-- A page is as sound as before when its descriptor, apart from its place on a list, the
links of its blocks and its blocks in use are. -/
theorem PageSound.congr {newLive : List Nat} {next prev : Nat}
    (fields : after.pages page =
      { heap.pages page with nextPageDescriptor := next, prevPageDescriptor := prev })
    (links : ∀ address, pageOf address = page → after.links address = heap.links address)
    (used : usedIn newLive page = usedIn live page) : after.PageSound newLive page free where
  aligned := sound.aligned
  nonzero := sound.nonzero
  index := by
    rw [fields]
    exact sound.index
  total := by
    rw [fields]
    exact sound.total
  trail := by
    rw [fields]
    apply sound.trail.congr
    intro address member
    exact links address (sound.block (mem_append_left _ member)).1
  blocks := by
    rw [used, fields]
    exact sound.blocks
  inUse := by
    rw [used, fields]
    exact sound.inUse

theorem PageSound.first (room : (heap.pages page).blocksInUse < (heap.pages page).totalBlocks) :
    ∃ rest, free = (heap.pages page).freeList :: rest ∧
      pageOf (heap.pages page).freeList = page := by
  have lengths := sound.length
  have trail := sound.trail
  cases free with
  | nil =>
    rw [length_nil] at lengths
    omega
  | cons address rest =>
    rw [trail.1]
    exact ⟨rest, rfl, (sound.block (mem_append_left _ mem_cons_self)).1⟩

end

end Pages

section Relinking

variable {live : List Nat} {free : Nat → List Nat}

theorem Relinked.pageSound (same : Relinked heap after) {page : Nat} {blocks : List Nat}
    (sound : heap.PageSound live page blocks) : after.PageSound live page blocks :=
  sound.congr (same.pages page) (fun address _ => congrFun same.links address) rfl

theorem Relinked.blocks (same : Relinked heap after) (sound : heap.Blocks live free) :
    after.Blocks live free where
  sizes := by
    intro index bounded
    rw [same.sizes index]
    exact sound.sizes index bounded
  distinct := by
    rw [same.held]
    exact sound.distinct
  pages := by
    intro page isHeld
    rw [same.held] at isHeld
    exact same.pageSound (sound.pages page isHeld)
  live := by
    intro address isLive
    rw [same.held]
    exact sound.live address isLive

theorem Relinked.belongs (same : Relinked heap after) (list : PageList) (index page : Nat) :
    after.Belongs list index page ↔ heap.Belongs list index page := by
  unfold Belongs
  rw [same.held, same.pages page]

end Relinking

/-! ### Taking a block -/

theorem usedIn_cons_same {live : List Nat} (inPage : pageOf address = page) :
    usedIn (address :: live) page = address :: usedIn live page :=
  filter_cons_of_pos (decide_eq_true inPage)

theorem usedIn_cons_other {live : List Nat} (outside : pageOf address ≠ page) :
    usedIn (address :: live) page = usedIn live page :=
  filter_cons_of_neg (fun inside => outside (of_decide_eq_true inside))

def takenFrom (heap : Kmalloc Regions) (page : Nat) : Kmalloc Regions :=
  heap.setPage page
    { heap.pages page with
      blocksInUse := ((heap.pages page).blocksInUse + 1) % 2 ^ 16
      freeList := heap.links (heap.pages page).freeList }

section Taking

variable {live : List Nat} {free : Nat → List Nat} {page : Nat}

theorem takenFrom_other {other : Nat} (different : other ≠ page) :
    (heap.takenFrom page).pages other = heap.pages other := by
  unfold takenFrom
  rw [setPage_pages, if_neg different]

theorem takenFrom_same (heap : Kmalloc Regions) (page : Nat) :
    (heap.takenFrom page).pages page =
      { heap.pages page with
        blocksInUse := ((heap.pages page).blocksInUse + 1) % 2 ^ 16
        freeList := heap.links (heap.pages page).freeList } := by
  unfold takenFrom
  rw [setPage_pages, if_pos rfl]

theorem PageSound.next_inUse {blocks : List Nat} (sound : heap.PageSound live page blocks)
    (room : (heap.pages page).blocksInUse < (heap.pages page).totalBlocks) :
    ((heap.pages page).blocksInUse + 1) % 2 ^ 16 = (heap.pages page).blocksInUse + 1 := by
  have small := (bucket_fits _ sound.index).2.2.2.2
  rw [← sound.total] at small
  exact Nat.mod_eq_of_lt (by omega)

theorem Blocks.take (sound : heap.Blocks live free) (isHeld : page ∈ heap.held)
    (room : (heap.pages page).blocksInUse < (heap.pages page).totalBlocks) :
    (heap.takenFrom page).Blocks ((heap.pages page).freeList :: live)
        (Function.update free page (free page).tail) ∧
      (heap.pages page).freeList ∉ live := by
  have here := sound.pages page isHeld
  obtain ⟨rest, split, inPage⟩ := here.first room
  have trail := here.trail
  have blocks := here.blocks
  have distinct := here.nodup
  rw [split] at trail blocks distinct
  constructor
  · constructor
    · exact sound.sizes
    · exact sound.distinct
    · intro other otherHeld
      by_cases same : other = page
      · subst same
        rw [update_self, split, tail_cons]
        constructor
        · exact here.aligned
        · exact here.nonzero
        · rw [takenFrom_same]
          exact here.index
        · rw [takenFrom_same]
          exact here.total
        · rw [takenFrom_same]
          exact trail.2
        · rw [takenFrom_same, usedIn_cons_same inPage]
          exact perm_middle.trans blocks
        · rw [takenFrom_same, usedIn_cons_same inPage, length_cons, ← here.inUse]
          exact here.next_inUse room
      · rw [update_of_ne same]
        apply (sound.pages other otherHeld).congr (takenFrom_other same) (fun _ _ => rfl)
        apply usedIn_cons_other
        rw [inPage]
        exact Ne.symm same
    · exact forall_mem_cons.mpr ⟨inPage.symm ▸ isHeld, sound.live⟩
  · intro isLive
    exact (nodup_cons.mp distinct).1 (mem_append_right _ (mem_usedIn isLive inPage))

end Taking

/-! ### Placement -/

structure Sound (heap : Kmalloc Regions) (live : List Nat) (lists : PageList → Nat → List Nat)
    (free : Nat → List Nat) : Prop where
  threaded : heap.Threaded lists
  placed : heap.Placed lists
  blocks : heap.Blocks live free

/-- One page is described anew; the lists stay. -/
theorem Threaded.describe {lists : PageList → Nat → List Nat} (threaded : heap.Threaded lists)
    (others : ∀ other, other ≠ page → after.pages other = heap.pages other)
    (here : after.next page = heap.next page ∧ after.prev page = heap.prev page)
    (buckets : after.buckets = heap.buckets) : after.Threaded lists where
  linked := by
    intro list index
    have same : ∀ other, after.next other = heap.next other ∧ after.prev other = heap.prev other := by
      intro other
      by_cases isPage : other = page
      · rw [isPage]
        exact here
      · unfold next prev
        rw [others other isPage]
        exact ⟨rfl, rfl⟩
    have sameHead : after.head list index = heap.head list index := by
      unfold head
      rw [buckets]
    rw [sameHead]
    exact (threaded.linked list index).congr (fun other _ => (same other).1)
      (fun other _ => (same other).2)
  distinct := threaded.distinct
  apart := threaded.apart

theorem takenFrom_threaded {lists : PageList → Nat → List Nat} (threaded : heap.Threaded lists)
    (page : Nat) : (heap.takenFrom page).Threaded lists := by
  apply threaded.describe (fun _ => takenFrom_other) _ rfl
  unfold next prev
  rw [takenFrom_same]
  exact ⟨rfl, rfl⟩

theorem Belongs.iff {list other : PageList} {index otherIndex : Nat}
    (belongs : heap.Belongs list index page) :
    heap.Belongs other otherIndex page ↔ other = list ∧ otherIndex = index := by
  constructor
  · intro here
    refine ⟨?_, here.2.1.symm.trans belongs.2.1⟩
    cases list with
    | free =>
      cases other with
      | free => rfl
      | full => exact absurd here.2.2 (Nat.ne_of_lt belongs.2.2)
    | full =>
      cases other with
      | free => exact absurd belongs.2.2 (Nat.ne_of_lt here.2.2)
      | full => rfl
  · rintro ⟨rfl, rfl⟩
    exact belongs

section Placing

variable {lists newLists : PageList → Nat → List Nat} {list : PageList} {index : Nat}
  (placed : heap.Placed lists) (now : after.Belongs list index page)
  (others : ∀ other otherIndex item, item ≠ page →
    (after.Belongs other otherIndex item ↔ heap.Belongs other otherIndex item))

include placed now others

/-- One page was put where it belongs. -/
theorem Placed.moved (members : ∀ other otherIndex item, item ∈ newLists other otherIndex ↔
      if item = page then other = list ∧ otherIndex = index else item ∈ lists other otherIndex) :
    after.Placed newLists := by
  intro other otherIndex item
  rw [members]
  by_cases isPage : item = page
  · rw [if_pos isPage, isPage]
    exact now.iff.symm
  · rw [if_neg isPage, placed, others _ _ _ isPage]

/-- One page belongs where it was. -/
theorem Placed.stays (before : heap.Belongs list index page) : after.Placed lists := by
  intro other otherIndex item
  rw [placed]
  by_cases isPage : item = page
  · rw [isPage, before.iff, now.iff]
  · exact (others _ _ _ isPage).symm

end Placing

theorem moveToFull_eq {index : Nat} (first : heap.prev (heap.head .free index) = 0) :
    heap.moveToFull index =
      (heap.unlink .free index (heap.head .free index)).pushFront .full index
        (heap.head .free index) := by
  change (heap.pages (heap.buckets index).freePageList).prevPageDescriptor = 0 at first
  unfold moveToFull pushFront unlink head
  dsimp only
  rw [first, if_pos rfl]
  rfl

section Allocation

variable {lists : PageList → Nat → List Nat} {live : List Nat} {free : Nat → List Nat}
  {index : Nat}

theorem Sound.first_page (sound : heap.Sound live lists free) (present : heap.head .free index ≠ 0) :
    heap.Belongs .free index (heap.head .free index) ∧ heap.prev (heap.head .free index) = 0 := by
  have linked := sound.threaded.linked .free index
  constructor
  · exact (sound.placed _ _ _).mp (linked.head_mem present)
  · cases items : lists .free index with
    | nil =>
      rw [items] at linked
      exact absurd linked present
    | cons first rest =>
      rw [items] at linked
      rw [linked.1]
      exact linked.2.2.1

variable {page : Nat}

theorem takenFrom_belongs (list : PageList) (index : Nat) {item : Nat} (different : item ≠ page) :
    (heap.takenFrom page).Belongs list index item ↔ heap.Belongs list index item := by
  unfold Belongs
  rw [takenFrom_other different]
  rfl

theorem takeBlock_sound (sound : heap.Sound live lists free)
    (present : heap.head .free index ≠ 0) :
    ∃ address after newLists newFree, takeBlock index heap = .ok (address, after) ∧
      after.Sound (address :: live) newLists newFree ∧ address ≠ 0 ∧
      pageOf address = heap.head .free index ∧ after.regions = heap.regions := by
  obtain ⟨belongs, first⟩ := sound.first_page present
  have member := (sound.placed .free index _).mpr belongs
  generalize isPage : heap.head .free index = page at present belongs first member
  have room : (heap.pages page).blocksInUse < (heap.pages page).totalBlocks := belongs.2.2
  have grown := (sound.blocks.pages page belongs.1).next_inUse room
  have taken := (sound.blocks.take belongs.1 room).1
  have threaded := takenFrom_threaded sound.threaded page
  have fields := takenFrom_same heap page
  obtain ⟨_, _, inPage⟩ := (sound.blocks.pages page belongs.1).first room
  have nonzero : (heap.pages page).freeList ≠ 0 := by
    intro zero
    rw [zero] at inPage
    exact present inPage.symm
  have splits : takeBlock index heap =
      if (heap.pages page).blocksInUse + 1 = (heap.pages page).totalBlocks then
        .ok ((heap.pages page).freeList, (heap.takenFrom page).moveToFull index)
      else .ok ((heap.pages page).freeList, heap.takenFrom page) := by
    rw [← grown, ← isPage]
    rw [← isPage] at present
    exact if_neg present
  by_cases filled : (heap.pages page).blocksInUse + 1 = (heap.pages page).totalBlocks
  · have stillFirst : (heap.takenFrom page).prev ((heap.takenFrom page).head .free index) = 0 := by
      change ((heap.takenFrom page).pages (heap.head .free index)).prevPageDescriptor = 0
      rw [isPage, fields]
      exact first
    have isStill : (heap.takenFrom page).head .free index = page := isPage
    rw [if_pos filled, moveToFull_eq stillFirst, isStill] at splits
    obtain ⟨newLists, moved, members⟩ := threaded.moved .full present member
    have isFull : (heap.takenFrom page).Belongs .full index page := by
      unfold Belongs
      rw [fields]
      exact ⟨belongs.1, belongs.2.1, grown.trans filled⟩
    have same := (unlink_relinked .free index page (heap.takenFrom page)).trans
      (pushFront_relinked .full index page _)
    have placed := sound.placed.moved isFull (fun list index _ => takenFrom_belongs list index)
      members
    refine ⟨_, _, newLists, _, splits, ⟨moved, ?_, same.blocks taken⟩, nonzero, inPage,
      same.regions⟩
    intro list otherIndex other
    rw [same.belongs]
    exact placed list otherIndex other
  · rw [if_neg filled] at splits
    have isFree : (heap.takenFrom page).Belongs .free index page := by
      unfold Belongs
      rw [fields]
      refine ⟨belongs.1, belongs.2.1, ?_⟩
      change ((heap.pages page).blocksInUse + 1) % 2 ^ 16 < (heap.pages page).totalBlocks
      omega
    have placed := sound.placed.stays isFree (fun list index _ => takenFrom_belongs list index)
      belongs
    exact ⟨_, _, lists, _, splits, ⟨threaded, placed, taken⟩, nonzero, inPage, rfl⟩

/-! ### A new page -/

theorem threadBlocks_same (size count : Nat) : ∀ (hole : Nat) (heap : Kmalloc Regions),
    (threadBlocks size count hole heap).pages = heap.pages ∧
      (threadBlocks size count hole heap).buckets = heap.buckets ∧
      (threadBlocks size count hole heap).held = heap.held ∧
      (threadBlocks size count hole heap).regions = heap.regions := by
  induction count with
  | zero => exact fun _ _ => ⟨rfl, rfl, rfl, rfl⟩
  | succ count ih => exact fun hole heap => ih (hole + size) (heap.setLink hole (hole + size))

theorem threadBlocks_other (size count : Nat) {address : Nat} : ∀ (hole : Nat)
    (heap : Kmalloc Regions), (∀ position < count, address ≠ hole + position * size) →
    (threadBlocks size count hole heap).links address = heap.links address := by
  induction count with
  | zero => exact fun _ _ _ => rfl
  | succ count ih =>
    intro hole heap outside
    have later : ∀ position < count, address ≠ hole + size + position * size := by
      intro position small same
      apply outside (position + 1) (by omega)
      rw [same, Nat.succ_mul]
      omega
    have notHere : address ≠ hole := by
      intro same
      exact outside 0 (by omega) (by rw [same, Nat.zero_mul]; rfl)
    rw [threadBlocks, ih (hole + size) _ later]
    exact update_of_ne notHere _ _

theorem threadBlocks_link {size : Nat} (positive : 0 < size) (count : Nat) : ∀ (hole : Nat)
    (heap : Kmalloc Regions) (position : Nat), position < count →
    (threadBlocks size count hole heap).links (hole + position * size) =
      hole + (position + 1) * size := by
  induction count with
  | zero => exact fun _ _ _ impossible => absurd impossible (Nat.not_lt_zero _)
  | succ count ih =>
    intro hole heap position small
    rw [threadBlocks]
    cases position with
    | zero =>
      rw [threadBlocks_other size count]
      · rw [Nat.zero_mul, Nat.zero_add, Nat.one_mul]
        exact update_self _ _ _
      · intro other _ same
        omega
    | succ position =>
      have further := ih (hole + size) (heap.setLink hole (hole + size)) position (by omega)
      have shifted : hole + size + position * size = hole + (position + 1) * size := by
        rw [Nat.succ_mul]
        omega
      have shiftedNext : hole + size + (position + 1) * size =
          hole + (position + 1 + 1) * size := by
        rw [Nat.succ_mul (position + 1)]
        omega
      rw [shifted, shiftedNext] at further
      exact further

theorem trail_steps (links : Nat → Nat) (base size count : Nat) : ∀ start,
    (∀ position, start ≤ position → position + 1 < start + count →
      links (base + position * size) = base + (position + 1) * size) →
    Trail links (base + start * size)
      ((List.range' start count).map (fun position => base + position * size)) := by
  induction count with
  | zero => exact fun _ _ => trivial
  | succ count ih =>
    intro start linked
    rw [List.range'_succ, map_cons]
    constructor
    · rfl
    · by_cases last : count = 0
      · rw [last]
        trivial
      · rw [linked start (Nat.le_refl _) (by omega)]
        apply ih (start + 1)
        intro position behind before
        exact linked position (by omega) (by omega)

def preparePage (bucketId page : Nat) (regions : Regions) (heap : Kmalloc Regions) :
    Kmalloc Regions :=
  threadBlocks (heap.buckets bucketId).bucketSize
    (blocksPerPage (heap.buckets bucketId).bucketSize - 1)
    (page + firstBlock (heap.buckets bucketId).bucketSize)
    ({ heap with regions := regions, held := page :: heap.held }.setPage page
      { heap.pages page with
        totalBlocks := blocksPerPage (heap.buckets bucketId).bucketSize
        blocksInUse := 0
        bucketIndex := bucketId
        freeList := page + firstBlock (heap.buckets bucketId).bucketSize })

theorem allocatePageForBucket_eq {source : RegionSource Regions}
    {regions touched : Regions} (allocated : source.allocate 4096 heap.regions = .ok (page, regions))
    (granted : page ≠ 0) (touches : source.touch page regions = .ok touched) :
    allocatePageForBucket source index heap =
      .ok (0, (heap.preparePage index page touched).pushFront .free index page) := by
  unfold allocatePageForBucket
  rw [allocated, ok_bind]
  dsimp only
  rw [if_neg granted, touches, ok_bind]
  rfl

/-- What `allocate_page_for_bucket` leaves when it succeeds. -/
theorem allocatePageForBucket_ok {source : RegionSource Regions}
    (allocated : allocatePageForBucket source index heap = .ok (0, after)) :
    ∃ page regions touched, source.allocate 4096 heap.regions = .ok (page, regions) ∧
      page ≠ 0 ∧ after = (heap.preparePage index page touched).pushFront .free index page := by
  unfold allocatePageForBucket at allocated
  obtain ⟨⟨page, regions⟩, isPage, rest⟩ := bind_eq_ok allocated
  by_cases none : page = 0
  · rw [if_pos none] at rest
    cases rest
  rw [if_neg none] at rest
  obtain ⟨touched, isTouched, isAfter⟩ := bind_eq_ok rest
  cases isAfter
  exact ⟨page, regions, touched, isPage, none, rfl⟩

theorem preparePage_same (heap : Kmalloc Regions) (index page : Nat) (regions : Regions) :
    (heap.preparePage index page regions).pages page =
      { heap.pages page with
        totalBlocks := blocksPerPage (heap.buckets index).bucketSize
        blocksInUse := 0
        bucketIndex := index
        freeList := page + firstBlock (heap.buckets index).bucketSize } := by
  unfold preparePage
  rw [(threadBlocks_same _ _ _ _).1, setPage_pages, if_pos rfl]

theorem preparePage_other {regions : Regions} {other : Nat} (different : other ≠ page) :
    (heap.preparePage index page regions).pages other = heap.pages other := by
  unfold preparePage
  rw [(threadBlocks_same _ _ _ _).1, setPage_pages, if_neg different]

theorem preparePage_held (heap : Kmalloc Regions) (index page : Nat) (regions : Regions) :
    (heap.preparePage index page regions).held = page :: heap.held :=
  (threadBlocks_same _ _ _ _).2.2.1

theorem preparePage_buckets (heap : Kmalloc Regions) (index page : Nat) (regions : Regions) :
    (heap.preparePage index page regions).buckets = heap.buckets :=
  (threadBlocks_same _ _ _ _).2.1

theorem preparePage_threaded (threaded : heap.Threaded lists) (page : Nat) (regions : Regions) :
    (heap.preparePage index page regions).Threaded lists := by
  apply threaded.describe (fun _ => preparePage_other) _ (preparePage_buckets _ _ _ _)
  unfold next prev
  rw [preparePage_same]
  exact ⟨rfl, rfl⟩

theorem preparePage_trail (heap : Kmalloc Regions) (page : Nat) (regions : Regions)
    (bounded : index < 7) (size : (heap.buckets index).bucketSize = bucketSizeOf index) :
    Trail (heap.preparePage index page regions).links
      ((heap.preparePage index page regions).pages page).freeList
      (blocksOf page (bucketSizeOf index)) := by
  have steps := trail_steps (heap.preparePage index page regions).links
    (page + firstBlock (bucketSizeOf index)) (bucketSizeOf index)
    (blocksPerPage (bucketSizeOf index)) 0
  rw [Nat.zero_mul, Nat.add_zero, Nat.zero_add, ← range_eq_range'] at steps
  rw [preparePage_same, size]
  apply steps
  intro position _ small
  unfold preparePage
  rw [size]
  exact threadBlocks_link (bucket_fits index bounded).1 _ _ _ position (by omega)

theorem Blocks.prepare (sound : heap.Blocks live free) (regions : Regions)
    (bounded : index < 7) (aligned : page % 4096 = 0) (granted : page ≠ 0)
    (fresh : page ∉ heap.held) :
    (heap.preparePage index page regions).Blocks live
      (Function.update free page (blocksOf page (bucketSizeOf index))) := by
  have size := sound.sizes index bounded
  obtain ⟨positive, _, fits, _⟩ := bucket_fits index bounded
  have unused : usedIn live page = [] := by
    apply filter_eq_nil_iff.mpr
    intro address isLive inPage
    have isHeld := sound.live address isLive
    rw [of_decide_eq_true inPage] at isHeld
    exact fresh isHeld
  constructor
  · rw [preparePage_buckets]
    exact sound.sizes
  · rw [preparePage_held]
    exact nodup_cons.mpr ⟨fresh, sound.distinct⟩
  · intro other isHeld
    rw [preparePage_held] at isHeld
    by_cases same : other = page
    · subst same
      rw [update_self]
      have fields := preparePage_same heap index other regions
      rw [size] at fields
      constructor
      · exact aligned
      · exact granted
      · rw [fields]
        exact bounded
      · rw [fields]
      · exact preparePage_trail heap other regions bounded size
      · rw [fields, unused, append_nil]
      · rw [fields, unused]
        rfl
    · rw [update_of_ne same]
      have old := (mem_cons.mp isHeld).resolve_left same
      refine (sound.pages other old).congr (preparePage_other same) ?_ rfl
      intro address inOther
      unfold preparePage
      rw [threadBlocks_other]
      · rfl
      · intro position small isBlock
        rw [size] at small isBlock
        have block := pageOf_block bounded aligned
          (block_mem page (show position < blocksPerPage (bucketSizeOf index) by omega))
        rw [← isBlock] at block
        exact same (inOther.symm.trans block.1)
  · intro address isLive
    rw [preparePage_held]
    exact mem_cons_of_mem _ (sound.live address isLive)

theorem Sound.prepared (sound : heap.Sound live lists free) (regions : Regions)
    (bounded : index < 7) (aligned : page % 4096 = 0) (granted : page ≠ 0)
    (fresh : page ∉ heap.held) :
    ∃ newLists newFree,
      ((heap.preparePage index page regions).pushFront .free index page).Sound live newLists
        newFree := by
  have outside : ∀ other otherIndex, page ∉ lists other otherIndex := by
    intro other otherIndex member
    exact fresh ((sound.placed other otherIndex page).mp member).1
  have threaded : (heap.preparePage index page regions).Threaded lists :=
    preparePage_threaded sound.threaded page regions
  obtain ⟨newLists, pushed, members⟩ := threaded.pushed .free index granted outside
  have same := pushFront_relinked .free index page (heap.preparePage index page regions)
  have blocks := sound.blocks.prepare regions bounded aligned granted fresh
  refine ⟨newLists, _, pushed, sound.placed.moved ((same.belongs _ _ _).mpr ?_) ?_ members,
    same.blocks blocks⟩
  · have several := (bucket_fits index bounded).2.2.2.1
    unfold Belongs
    rw [preparePage_same, preparePage_held, sound.blocks.sizes index bounded]
    exact ⟨mem_cons_self, rfl, Nat.lt_trans Nat.zero_lt_one several⟩
  · intro list otherIndex item notPage
    rw [same.belongs]
    unfold Belongs
    rw [preparePage_other notPage, preparePage_held, mem_cons, or_iff_right notPage]

end Allocation

/-! ### Giving a block back -/

section Freeing

variable {lists : PageList → Nat → List Nat} {live : List Nat} {free : Nat → List Nat}
  {address : Nat}

theorem returnBlock_same (heap : Kmalloc Regions) (address : Nat) :
    (heap.returnBlock address).pages (pageOf address) =
      { heap.pages (pageOf address) with
        freeList := address
        blocksInUse := ((heap.pages (pageOf address)).blocksInUse + (2 ^ 16 - 1)) % 2 ^ 16 } := by
  unfold returnBlock
  dsimp only
  rw [setPage_pages, if_pos rfl]

variable {page : Nat}

theorem returnBlock_other (different : page ≠ pageOf address) :
    (heap.returnBlock address).pages page = heap.pages page := by
  unfold returnBlock
  dsimp only
  rw [setPage_pages, if_neg different]
  rfl

theorem returnBlock_links (heap : Kmalloc Regions) (address other : Nat) :
    (heap.returnBlock address).links other =
      if other = address then (heap.pages (pageOf address)).freeList else heap.links other :=
  update_apply _ _ _ _

theorem returnBlock_threaded (threaded : heap.Threaded lists) (address : Nat) :
    (heap.returnBlock address).Threaded lists := by
  apply threaded.describe (fun _ => returnBlock_other) _ rfl
  unfold next prev
  rw [returnBlock_same]
  exact ⟨rfl, rfl⟩

theorem usedIn_erase_same (isLive : address ∈ live) :
    (usedIn live (pageOf address)).Perm (address :: usedIn (live.erase address) (pageOf address)) := by
  have first : usedIn (address :: live.erase address) (pageOf address) =
      address :: usedIn (live.erase address) (pageOf address) := usedIn_cons_same rfl
  rw [← first]
  exact (perm_cons_erase isLive).filter _

theorem usedIn_erase_other (different : page ≠ pageOf address) :
    usedIn (live.erase address) page = usedIn live page := by
  induction live with
  | nil => rfl
  | cons first live ih =>
    by_cases same : first = address
    · rw [same, erase_cons_head, usedIn_cons_other (Ne.symm different)]
    rw [erase_cons_tail (by simpa using same)]
    by_cases inPage : pageOf first = page
    · rw [usedIn_cons_same inPage, usedIn_cons_same inPage, ih]
    · rw [usedIn_cons_other inPage, usedIn_cons_other inPage, ih]

theorem Blocks.inUse_pred (sound : heap.Blocks live free) (isLive : address ∈ live) :
    ((heap.pages (pageOf address)).blocksInUse + (2 ^ 16 - 1)) % 2 ^ 16 + 1 =
      (heap.pages (pageOf address)).blocksInUse := by
  have here := sound.pages _ (sound.live address isLive)
  have several := (usedIn_erase_same isLive).length_eq
  have small := (bucket_fits _ here.index).2.2.2.2
  have lengths := here.length
  rw [← here.total] at small
  rw [← here.inUse, length_cons] at several
  omega

theorem Blocks.give (sound : heap.Blocks live free) (isLive : address ∈ live) :
    (heap.returnBlock address).Blocks (live.erase address)
      (Function.update free (pageOf address) (address :: free (pageOf address))) := by
  have isHeld := sound.live address isLive
  have here := sound.pages _ isHeld
  have split := usedIn_erase_same isLive
  have fields := returnBlock_same heap address
  have used := mem_usedIn isLive rfl
  constructor
  · exact sound.sizes
  · exact sound.distinct
  · intro page pageHeld
    by_cases same : page = pageOf address
    · rw [same, update_self]
      have notFree : address ∉ free (pageOf address) := by
        intro inFree
        exact (nodup_append.mp here.nodup).2.2 address inFree address used rfl
      constructor
      · exact here.aligned
      · exact here.nonzero
      · rw [fields]
        exact here.index
      · rw [fields]
        exact here.total
      · rw [fields]
        constructor
        · rfl
        · rw [returnBlock_links, if_pos rfl]
          apply here.trail.congr
          intro other member
          rw [returnBlock_links, if_neg]
          intro isAddress
          rw [isAddress] at member
          exact notFree member
      · rw [fields]
        have blocks := (split.append_left (free (pageOf address))).symm.trans here.blocks
        exact perm_middle.symm.trans blocks
      · rw [fields]
        have lengths := split.length_eq
        have counted := sound.inUse_pred isLive
        rw [length_cons, ← here.inUse] at lengths
        change ((heap.pages (pageOf address)).blocksInUse + (2 ^ 16 - 1)) % 2 ^ 16 = _
        omega
    · rw [update_of_ne same]
      refine (sound.pages page pageHeld).congr (returnBlock_other same) ?_ (usedIn_erase_other same)
      intro other inPage
      rw [returnBlock_links, if_neg]
      intro isAddress
      rw [isAddress] at inPage
      exact same inPage.symm
  · intro other stillLive
    exact sound.live other (mem_of_mem_erase stillLive)

/-- A page that was not full belongs on the free list before and after. -/
theorem Blocks.give_belongs (sound : heap.Blocks live free) (isLive : address ∈ live)
    (notFull : (heap.pages (pageOf address)).blocksInUse ≠
      (heap.pages (pageOf address)).totalBlocks) :
    heap.Belongs .free (heap.pages (pageOf address)).bucketIndex (pageOf address) ∧
      (heap.returnBlock address).Belongs .free (heap.pages (pageOf address)).bucketIndex
        (pageOf address) := by
  have isHeld := sound.live address isLive
  have counted := sound.inUse_pred isLive
  have lengths := (sound.pages _ isHeld).length
  have room : (heap.pages (pageOf address)).blocksInUse <
      (heap.pages (pageOf address)).totalBlocks := by omega
  refine ⟨⟨isHeld, rfl, room⟩, ?_⟩
  unfold Belongs
  rw [returnBlock_same]
  refine ⟨isHeld, rfl, ?_⟩
  change ((heap.pages (pageOf address)).blocksInUse + (2 ^ 16 - 1)) % 2 ^ 16 <
    (heap.pages (pageOf address)).totalBlocks
  omega

/-- Giving a block back leaves every page on its list, unless the page was full. -/
theorem Sound.give (sound : heap.Sound live lists free) (isLive : address ∈ live)
    (notFull : (heap.pages (pageOf address)).blocksInUse ≠
      (heap.pages (pageOf address)).totalBlocks) :
    (heap.returnBlock address).Sound (live.erase address) lists
      (Function.update free (pageOf address) (address :: free (pageOf address))) where
  threaded := returnBlock_threaded sound.threaded address
  blocks := sound.blocks.give isLive
  placed := by
    obtain ⟨before, now⟩ := sound.blocks.give_belongs isLive notFull
    refine sound.placed.stays now ?_ before
    intro list index page different
    unfold Belongs
    rw [returnBlock_other different]
    rfl

theorem Blocks.drop (sound : heap.Blocks live free)
    (unused : usedIn live page = []) (regions : Regions) :
    { heap with regions := regions, held := heap.held.erase page }.Blocks live free where
  sizes := sound.sizes
  distinct := sound.distinct.erase page
  pages := by
    intro other isHeld
    have old := sound.pages other (mem_of_mem_erase isHeld)
    exact old.congr rfl (fun _ _ => rfl) rfl
  live := by
    intro address isLive
    apply (mem_erase_of_ne _).mpr (sound.live address isLive)
    intro inPage
    have used := mem_usedIn isLive inPage
    rw [unused] at used
    cases used

theorem cull_sound {source : RegionSource Regions} {index : Nat}
    (sound : heap.Sound live lists free) (onList : page ∈ lists .free index)
    (unused : usedIn live page = []) (culled : cull source index page heap = .ok after) :
    ∃ newLists newFree, after.Sound live newLists newFree := by
  obtain ⟨regions, _isFreed, isAfter⟩ := bind_eq_ok culled
  cases isAfter
  obtain ⟨newLists, threaded, members⟩ := sound.threaded.removed onList
  have same := unlink_relinked .free index page heap
  refine ⟨newLists, free, ⟨threaded.linked, threaded.distinct, threaded.apart⟩, ?_,
    (same.blocks sound.blocks).drop unused regions⟩
  intro list otherIndex other
  rw [members, sound.placed, ← same.belongs]
  unfold Belongs
  change _ ↔ other ∈ (heap.unlink .free index page).held.erase page ∧ _
  rw [(same.blocks sound.blocks).distinct.mem_erase_iff]
  constructor
  · intro facts
    exact ⟨⟨facts.1, facts.2.1⟩, facts.2.2⟩
  · intro facts
    exact ⟨facts.1.1, facts.1.2, facts.2⟩

theorem kfree_eq (source : RegionSource Regions) (sound : heap.Blocks live free)
    (isLive : address ∈ live)
    (notFull : (heap.pages (pageOf address)).blocksInUse ≠
      (heap.pages (pageOf address)).totalBlocks) :
    kfree source address heap =
      if ((heap.pages (pageOf address)).blocksInUse + (2 ^ 16 - 1)) % 2 ^ 16 = 0 then
        (heap.returnBlock address).cull source (heap.pages (pageOf address)).bucketIndex
          (pageOf address)
      else .ok (heap.returnBlock address) := by
  have here := sound.pages _ (sound.live address isLive)
  have counted := sound.inUse_pred isLive
  have used := mem_usedIn isLive rfl
  have inPage : address % 4096 ≠ 0 := (here.block (mem_append_right _ used)).2
  unfold kfree
  dsimp only
  rw [if_neg inPage, returnBlock_same]
  exact if_neg (fun full => notFull (counted.symm.trans full))

theorem kfree_sound {source : RegionSource Regions} (sound : heap.Sound live lists free)
    (isLive : address ∈ live)
    (notFull : (heap.pages (pageOf address)).blocksInUse ≠
      (heap.pages (pageOf address)).totalBlocks)
    (freed : kfree source address heap = .ok after) :
    ∃ newLists newFree, after.Sound (live.erase address) newLists newFree := by
  have isHeld := sound.blocks.live address isLive
  have given := sound.give isLive notFull
  rw [kfree_eq source sound.blocks isLive notFull] at freed
  by_cases unused : ((heap.pages (pageOf address)).blocksInUse + (2 ^ 16 - 1)) % 2 ^ 16 = 0
  · rw [if_pos unused] at freed
    have none : usedIn (live.erase address) (pageOf address) = [] := by
      apply eq_nil_of_length_eq_zero
      rw [← (given.blocks.pages _ isHeld).inUse, returnBlock_same]
      exact unused
    exact cull_sound given
      ((given.placed _ _ _).mpr (sound.blocks.give_belongs isLive notFull).2) none freed
  · rw [if_neg unused] at freed
    cases freed
    exact ⟨_, _, given⟩

end Freeing

end Kmalloc

end Fesos
