/-
One bucket page, from its set-up on.

kmalloc takes the first free block of the page, kfree puts a block in front of the
free ones, and between the two the owner of a block writes what it likes into it.  The
list of free blocks runs through their first words; its last link is the zero that the
page was handed over with.
-/

import Fesos.KmallocRuns

set_option autoImplicit false

namespace Fesos

open Library List

theorem blocksOf_apart {page size first second : Nat} (inFirst : first ∈ blocksOf page size)
    (inSecond : second ∈ blocksOf page size) (different : first ≠ second) :
    first + size ≤ second ∨ second + size ≤ first := by
  obtain ⟨one, _, rfl⟩ := mem_map.mp inFirst
  obtain ⟨other, _, rfl⟩ := mem_map.mp inSecond
  rcases Nat.lt_trichotomy one other with before | same | behind
  · have below := Nat.mul_le_mul_right size (Nat.succ_le_of_lt before)
    rw [Nat.succ_mul] at below
    left
    omega
  · rw [same] at different
    exact absurd rfl different
  · have below := Nat.mul_le_mul_right size (Nat.succ_le_of_lt behind)
    rw [Nat.succ_mul] at below
    right
    omega

theorem bucket_holds_link : ∀ index < 7, 8 ≤ bucketSizeOf index := by decide

/-- A heap and the blocks of one of its pages that are handed out. -/
structure BlockOwners (Regions : Type) where
  heap : Kmalloc Regions
  live : List Nat

/-- The owner of a block may leave any bytes in it: `content` gives the words at the
addresses that reach into the block. -/
inductive BlockCall where
  | pop
  | push (block : Nat)
  | write (block : Nat) (content : Nat → Nat)

namespace BlockOwners

variable {Regions : Type}

def overwrite (heap : Kmalloc Regions) (block size : Nat) (content : Nat → Nat) :
    Kmalloc Regions :=
  { heap with
    links := fun address =>
      if address + 8 ≤ block ∨ block + size ≤ address then heap.links address
      else content address }

def step (page index : Nat) (owners : BlockOwners Regions) :
    BlockCall → Except Fault (BlockOwners Regions)
  | .pop => .ok
    { heap := owners.heap.takenFrom page
      live := (owners.heap.pages page).freeList :: owners.live }
  | .push block => .ok
    { heap := owners.heap.returnBlock block
      live := owners.live.erase block }
  | .write block content => .ok
    { owners with heap := overwrite owners.heap block (bucketSizeOf index) content }

def Legal (page : Nat) (owners : BlockOwners Regions) : BlockCall → Prop
  | .pop => (owners.heap.pages page).blocksInUse < (owners.heap.pages page).totalBlocks
  | .push block => block ∈ owners.live
  | .write block _ => block ∈ owners.live

instance (page : Nat) (owners : BlockOwners Regions) (call : BlockCall) :
    Decidable (owners.Legal page call) :=
  match call with
  | .pop => inferInstanceAs (Decidable (_ < _))
  | .push block => inferInstanceAs (Decidable (block ∈ owners.live))
  | .write block _ => inferInstanceAs (Decidable (block ∈ owners.live))

/-- What the free list of a page has to be. -/
structure Intact (owners : BlockOwners Regions) (page index : Nat) (free : List Nat) : Prop where
  listed : Chain owners.heap.links (owners.heap.pages page).freeList free
  distinct : free.Nodup
  complement : ∀ block, block ∈ free ↔
    block ∈ blocksOf page (bucketSizeOf index) ∧ block ∉ owners.live
  counted : (owners.heap.pages page).blocksInUse = owners.live.length
  apart : owners.live.Pairwise (fun first second =>
    first + bucketSizeOf index ≤ second ∨ second + bucketSizeOf index ≤ first)
  inside : ∀ block ∈ owners.live,
    page + descriptorSize ≤ block ∧ block + bucketSizeOf index ≤ page + 4096

/-- The invariant: the free blocks are chained, and together with the live ones they are
the blocks of the page. -/
structure Chained (owners : BlockOwners Regions) (page index : Nat) (free : List Nat) : Prop where
  chain : Chain owners.heap.links (owners.heap.pages page).freeList free
  blocks : (free ++ owners.live).Perm (blocksOf page (bucketSizeOf index))
  inUse : (owners.heap.pages page).blocksInUse = owners.live.length
  total : (owners.heap.pages page).totalBlocks = blocksPerPage (bucketSizeOf index)

section Steps

variable {owners next : BlockOwners Regions} {page index block : Nat} {free : List Nat}

theorem Chained.nodup (bounded : index < 7) (chained : owners.Chained page index free) :
    (free ++ owners.live).Nodup :=
  chained.blocks.nodup_iff.mpr (nodup_blocksOf page (bucket_fits index bounded).1)

theorem Chained.length (chained : owners.Chained page index free) :
    free.length + owners.live.length = (owners.heap.pages page).totalBlocks := by
  rw [chained.total, ← length_blocksOf page, ← chained.blocks.length_eq, length_append]

theorem Chained.small (bounded : index < 7) (chained : owners.Chained page index free) :
    (owners.heap.pages page).totalBlocks < 2 ^ 16 := by
  rw [chained.total]
  exact (bucket_fits index bounded).2.2.2.2

theorem Chained.intact (bounded : index < 7) (chained : owners.Chained page index free) :
    owners.Intact page index free := by
  obtain ⟨freeDistinct, liveDistinct, disjoint⟩ := nodup_append.mp (chained.nodup bounded)
  have isBlock : ∀ block ∈ owners.live, block ∈ blocksOf page (bucketSizeOf index) :=
    fun block isLive => chained.blocks.mem_iff.mp (mem_append_right _ isLive)
  constructor
  · exact chained.chain
  · exact freeDistinct
  · intro block
    rw [← chained.blocks.mem_iff, mem_append]
    constructor
    · exact fun isFree => ⟨Or.inl isFree, fun isLive => disjoint block isFree block isLive rfl⟩
    · exact fun either => either.1.resolve_right either.2
  · exact chained.inUse
  · apply liveDistinct.imp_of_mem
    intro first second inFirst inSecond different
    exact blocksOf_apart (isBlock first inFirst) (isBlock second inSecond) different
  · exact fun block isLive => mem_blocksOf bounded (isBlock block isLive)

theorem Chained.pop (bounded : index < 7) (chained : owners.Chained page index free)
    (room : (owners.heap.pages page).blocksInUse < (owners.heap.pages page).totalBlocks) :
    ∃ rest, Chained ⟨owners.heap.takenFrom page,
      (owners.heap.pages page).freeList :: owners.live⟩ page index rest := by
  have lengths := chained.length
  have small := chained.small bounded
  have inUse := chained.inUse
  obtain ⟨chain, blocks, _, total⟩ := chained
  cases free with
  | nil =>
    rw [length_nil] at lengths
    omega
  | cons first rest =>
    obtain ⟨isFirst, _, behind⟩ := chain
    refine ⟨rest, ?_⟩
    rw [isFirst]
    constructor
    · rw [Kmalloc.takenFrom_same, isFirst]
      exact behind
    · exact perm_middle.trans blocks
    · rw [Kmalloc.takenFrom_same, length_cons, ← inUse]
      exact Nat.mod_eq_of_lt (by omega)
    · rw [Kmalloc.takenFrom_same]
      exact total

theorem Chained.push (bounded : index < 7) (aligned : page % 4096 = 0)
    (chained : owners.Chained page index free) (isLive : block ∈ owners.live) :
    Chained ⟨owners.heap.returnBlock block, owners.live.erase block⟩ page index
      (block :: free) := by
  have isBlock := chained.blocks.mem_iff.mp (mem_append_right free isLive)
  have inPage := (Kmalloc.pageOf_block bounded aligned isBlock).1
  have place := mem_blocksOf bounded isBlock
  have split := perm_cons_erase isLive
  have fields := Kmalloc.returnBlock_same owners.heap block
  rw [inPage] at fields
  constructor
  · rw [fields]
    change Library.Chain _ block _
    apply chained.chain.cons
    · unfold descriptorSize at place
      omega
    · rw [Kmalloc.returnBlock_links, if_pos rfl, inPage]
    · intro other isFree
      rw [Kmalloc.returnBlock_links, if_neg]
      intro same
      rw [same] at isFree
      exact (nodup_append.mp (chained.nodup bounded)).2.2 block isFree block isLive rfl
  · exact perm_middle.symm.trans ((split.symm.append_left free).trans chained.blocks)
  · have lengths := chained.length
    have small := chained.small bounded
    have fewer := split.length_eq
    rw [length_cons] at fewer
    rw [fields]
    change ((owners.heap.pages page).blocksInUse + (2 ^ 16 - 1)) % 2 ^ 16 = _
    rw [chained.inUse]
    change _ = (owners.live.erase block).length
    omega
  · rw [fields]
    exact chained.total

/-- What an owner writes reaches into no free block. -/
theorem Chained.write (bounded : index < 7) (chained : owners.Chained page index free)
    (isLive : block ∈ owners.live) (content : Nat → Nat) :
    Chained ⟨overwrite owners.heap block (bucketSizeOf index) content, owners.live⟩ page index
      free := by
  refine ⟨chained.chain.congr (fun other isFree => if_pos ?_), chained.blocks, chained.inUse,
    chained.total⟩
  have different : other ≠ block :=
    fun same => (nodup_append.mp (chained.nodup bounded)).2.2 other isFree block isLive same
  have apart := blocksOf_apart (chained.blocks.mem_iff.mp (mem_append_left _ isFree))
    (chained.blocks.mem_iff.mp (mem_append_right _ isLive)) different
  have holds := bucket_holds_link index bounded
  omega

theorem Chained.step (bounded : index < 7) (aligned : page % 4096 = 0)
    (chained : owners.Chained page index free) {call : BlockCall}
    (legal : owners.Legal page call) (stepped : owners.step page index call = .ok next) :
    ∃ rest, next.Chained page index rest := by
  cases call with
  | pop =>
    cases stepped
    exact chained.pop bounded legal
  | push block =>
    cases stepped
    exact ⟨_, chained.push bounded aligned legal⟩
  | write block content =>
    cases stepped
    exact ⟨free, chained.write bounded legal content⟩

/-- All blocks of a new page are free. -/
theorem chained_prepared {heap : Kmalloc Regions} (bounded : index < 7)
    (size : (heap.buckets index).bucketSize = bucketSizeOf index) (aligned : page % 4096 = 0)
    (zeroed : ∀ address, Kmalloc.pageOf address = page → heap.links address = 0)
    (touched : Regions) :
    Chained ⟨(heap.preparePage index page touched).pushFront .free index page, []⟩ page index
      (blocksOf page (bucketSizeOf index)) := by
  have same := Kmalloc.pushFront_relinked .free index page (heap.preparePage index page touched)
  have fields := Kmalloc.preparePage_same heap index page touched
  obtain ⟨positive, _, _, several, _⟩ := bucket_fits index bounded
  constructor
  · rw [same.links, same.pages page]
    apply (Kmalloc.preparePage_trail heap page touched bounded size).chain
    · intro none
      have length := length_blocksOf page (bucketSizeOf index)
      rw [none, length_nil] at length
      omega
    · intro block member
      have place := mem_blocksOf bounded member
      unfold descriptorSize at place
      omega
    · intro last isLast
      have member := mem_of_getLast? isLast
      unfold blocksOf at isLast
      rw [getLast?_map, getLast?_range, if_neg (by omega), Option.map_some] at isLast
      unfold Kmalloc.preparePage
      rw [size, Kmalloc.threadBlocks_other]
      · exact zeroed last (Kmalloc.pageOf_block bounded aligned member).1
      · intro position before isBlock
        have place := Option.some.inj isLast
        rw [isBlock] at place
        have products := Nat.mul_lt_mul_of_pos_right before positive
        omega
  · rw [append_nil]
  · rw [same.pages page, fields]
    rfl
  · rw [same.pages page, fields, size]

end Steps

/-- From the set-up of a page on zeroed memory, whatever its blocks are taken, given back
and written in: its free list is intact. -/
theorem page_free_list_intact {source : RegionSource Regions} {heap after : Kmalloc Regions}
    {index : Nat} {calls : List BlockCall} {final : BlockOwners Regions} (bounded : index < 7)
    (size : (heap.buckets index).bucketSize = bucketSizeOf index)
    (setUp : Kmalloc.allocatePageForBucket source index heap = .ok (0, after))
    (aligned : after.head .free index % 4096 = 0)
    (zeroed : ∀ address, Kmalloc.pageOf address = after.head .free index →
      heap.links address = 0)
    (run : Run (step (after.head .free index) index) (Legal (after.head .free index))
      ⟨after, []⟩ calls final) :
    ∃ free, final.Intact (after.head .free index) index free := by
  obtain ⟨page, regions, touched, _, _, isAfter⟩ := Kmalloc.allocatePageForBucket_ok setUp
  have isHead : after.head .free index = page := by
    rw [isAfter, Kmalloc.pushFront_head, if_pos ⟨rfl, rfl⟩]
  rw [isHead] at aligned zeroed run ⊢
  have chained : ∃ free, final.Chained page index free := by
    apply run.invariant (fun owners => ∃ free, owners.Chained page index free)
    · rw [isAfter]
      exact ⟨_, chained_prepared bounded size aligned zeroed touched⟩
    · rintro owners call next ⟨free, before⟩ legal stepped
      exact before.step bounded aligned legal stepped
  obtain ⟨free, last⟩ := chained
  exact ⟨free, last.intact bounded⟩

/-- A heap whose next page is at 4096, in memory of zeros. -/
def zeroedHeap : Kmalloc Nat :=
  { Kmalloc.initial (fun _ => ⟨0, 0, 0, 0, 0, 0⟩) (fun _ => 0) with regions := 4096 }

theorem page_free_list_intact_largest : ∃ after final free,
    Kmalloc.allocatePageForBucket pageOracle 6 zeroedHeap = .ok (0, after) ∧
    Run (step 4096 6) (Legal 4096) ⟨after, []⟩
      [.pop, .write 5120 (fun _ => 7), .pop, .push 5120, .pop, .pop] final ∧
    final.live = [7168, 5120, 6144] ∧ final.Intact 4096 6 free := by
  obtain ⟨⟨status, after⟩, setUp, zero, isHead, live⟩ : ∃ result,
      Kmalloc.allocatePageForBucket pageOracle 6 zeroedHeap = .ok result ∧ result.1 = 0 ∧
      result.2.head .free 6 = 4096 ∧
      (Run.execute (step 4096 6) (Legal 4096) ⟨result.2, []⟩
        [.pop, .write 5120 (fun _ => 7), .pop, .push 5120, .pop, .pop]).map live =
          some [7168, 5120, 6144] :=
    exists_of_checked _ (by decide +kernel)
  dsimp only at zero isHead live
  rw [zero] at setUp
  obtain ⟨final, executed, isLive⟩ := Option.map_eq_some_iff.mp live
  have run := Run.of_execute executed
  rw [← isHead] at run
  obtain ⟨free, intact⟩ := page_free_list_intact (by decide) rfl setUp (by rw [isHead])
    (fun _ _ => rfl) run
  rw [isHead] at run intact
  exact ⟨after, final, free, setUp, run, isLive, intact⟩

end BlockOwners

end Fesos
