/-
Runs of kmalloc and kfree on the bucket pages.

The region allocator is an oracle: each kmalloc comes with the page it would be
given, or 0.  `HeapSystem` adds the blocks handed out.  As long as no block of a
full page is given back, every page is on the list of its bucket its count asks
for, and the lists are well formed.
-/

import Fesos.KmallocBlocks
import Fesos.Library.Runs

set_option autoImplicit false

namespace Fesos

open Library

/-- The answer of the region allocator is its whole state. -/
def pageOracle : RegionSource Nat where
  allocate := fun _ answer => .ok (answer, answer)
  touch := fun _ answer => .ok answer
  free := fun _ answer => .ok answer

namespace Kmalloc

/-- The heap after `kmalloc_init`: the buckets are static, so their lists are
empty, and memory holds anything. -/
def initial (pages : Nat → PageDescriptor) (links : Nat → Nat) : Kmalloc Nat :=
  kmallocInit
    { buckets := fun _ => ⟨0, 0, 0⟩
      pages := pages
      links := links
      regions := 0
      held := [] }

/-- The pages of both lists of every bucket: doubly linked, without repetition,
and each page held on the list its descriptor asks for and on no other. -/
def ListsSound {Regions : Type} (heap : Kmalloc Regions) : Prop :=
  ∃ lists : PageList → Nat → List Nat,
    (∀ list index, DoublyLinked heap.next heap.prev (heap.head list index) (lists list index) ∧
      (lists list index).Nodup) ∧
    (∀ list index page, page ∈ lists list index ↔ heap.Belongs list index page) ∧
    ∀ page ∈ heap.held, (heap.pages page).bucketIndex < 7 ∧
      (heap.pages page).blocksInUse ≤ (heap.pages page).totalBlocks

section Calls

variable {Regions : Type} {heap after : Kmalloc Regions} {lists : PageList → Nat → List Nat}
  {live : List Nat} {free : Nat → List Nat}

theorem Sound.listsSound (sound : heap.Sound live lists free) : heap.ListsSound := by
  refine ⟨lists, ?_, sound.placed, ?_⟩
  · intro list index
    exact ⟨sound.threaded.linked list index, sound.threaded.distinct list index⟩
  · intro page isHeld
    have here := sound.blocks.pages page isHeld
    have lengths := here.length
    exact ⟨here.index, by omega⟩

/-- The lists of static buckets are empty. -/
theorem kmallocInit_sound (nothing : heap.held = [])
    (static : ∀ index, heap.buckets index = ⟨0, 0, 0⟩) :
    (kmallocInit heap).Sound [] (fun _ _ => []) (fun _ => []) where
  threaded :=
    { linked := by
        intro list index
        unfold DoublyLinked head kmallocInit
        cases list with
        | free =>
          change (heap.buckets index).freePageList = 0
          rw [static]
        | full =>
          change (heap.buckets index).fullPageList = 0
          rw [static]
      distinct := fun _ _ => List.nodup_nil
      apart := by
        intro _ _ _ _ _ impossible
        cases impossible }
  placed := by
    intro list index page
    constructor
    · intro impossible
      cases impossible
    · intro belongs
      have isHeld : page ∈ heap.held := belongs.1
      rw [nothing] at isHeld
      cases isHeld
  blocks :=
    { sizes := by
        intro index bounded
        change bucketSizes.getD index (heap.buckets index).bucketSize = bucketSizeOf index
        rw [static]
        rfl
      distinct := by
        change heap.held.Nodup
        rw [nothing]
        exact List.nodup_nil
      pages := by
        intro page isHeld
        change page ∈ heap.held at isHeld
        rw [nothing] at isHeld
        cases isHeld
      live := by
        intro address impossible
        cases impossible }

theorem initial_sound (pages : Nat → PageDescriptor) (links : Nat → Nat) :
    (initial pages links).Sound [] (fun _ _ => []) (fun _ => []) :=
  kmallocInit_sound rfl (fun _ => rfl)

theorem Sound.withRegions (sound : heap.Sound live lists free) (regions : Regions) :
    { heap with regions := regions }.Sound live lists free where
  threaded := ⟨sound.threaded.linked, sound.threaded.distinct, sound.threaded.apart⟩
  placed := sound.placed
  blocks :=
    { sizes := sound.blocks.sizes
      distinct := sound.blocks.distinct
      pages := by
        intro page isHeld
        exact (sound.blocks.pages page isHeld).congr rfl (fun _ _ => rfl) rfl
      live := sound.blocks.live }

/-- kmalloc of a bucket size: nothing, when there is no page to be had, or a block. -/
theorem kmalloc_sound (source : RegionSource Regions) {size page : Nat}
    {regions touched : Regions} (sound : heap.Sound live lists free) (positive : 1 ≤ size) (small : size ≤ 1024)
    (allocated : source.allocate 4096 heap.regions = .ok (page, regions))
    (touches : source.touch page regions = .ok touched)
    (fresh : page = 0 ∨ page % 4096 = 0 ∧ page ∉ heap.held) :
    ∃ address after newLists newFree, kmalloc source size heap = .ok (address, after) ∧
      after.Sound (if address = 0 then live else address :: live) newLists newFree := by
  have bounded := getBucketFromSize_lt size small
  have bucketed := kmalloc_bucket source positive small heap
  by_cases empty : heap.head .free (getBucketFromSize size) = 0
  · rw [if_pos empty] at bucketed
    by_cases none : page = 0
    · have refused : allocatePageForBucket source (getBucketFromSize size) heap =
          .ok (1, { heap with regions := regions }) := by
        unfold allocatePageForBucket
        rw [allocated, ok_bind]
        exact if_pos none
      rw [refused, ok_bind, if_pos Nat.one_ne_zero] at bucketed
      refine ⟨0, _, lists, free, bucketed, ?_⟩
      rw [if_pos rfl]
      exact sound.withRegions regions
    · have page_fresh := fresh.resolve_left none
      rw [allocatePageForBucket_eq allocated none touches, ok_bind,
        if_neg (fun nonzero => nonzero rfl)] at bucketed
      obtain ⟨newLists, newFree, prepared⟩ :=
        sound.prepared touched bounded page_fresh.1 none page_fresh.2
      have first : ((heap.preparePage (getBucketFromSize size) page touched).pushFront .free
          (getBucketFromSize size) page).head .free (getBucketFromSize size) ≠ 0 := by
        rw [pushFront_head, if_pos ⟨rfl, rfl⟩]
        exact none
      obtain ⟨address, after, takenLists, takenFree, taken, takenSound, nonzero, _⟩ :=
        takeBlock_sound prepared first
      refine ⟨address, after, takenLists, takenFree, bucketed.trans taken, ?_⟩
      rw [if_neg nonzero]
      exact takenSound
  · rw [if_neg empty] at bucketed
    obtain ⟨address, after, takenLists, takenFree, taken, takenSound, nonzero, _⟩ :=
      takeBlock_sound sound empty
    refine ⟨address, after, takenLists, takenFree, bucketed.trans taken, ?_⟩
    rw [if_neg nonzero]
    exact takenSound

end Calls

end Kmalloc

inductive HeapCall where
  | kmalloc (size answer : Nat)
  | kfree (address : Nat)
  deriving Repr

structure HeapSystem where
  heap : Kmalloc Nat
  live : List Nat

namespace HeapSystem

open Kmalloc

def step (system : HeapSystem) : HeapCall → Except Fault HeapSystem
  | .kmalloc size answer => do
    let granted ← kmalloc pageOracle size { system.heap with regions := answer }
    pure ⟨granted.2, if granted.1 = 0 then system.live else granted.1 :: system.live⟩
  | .kfree address => do
    let freed ← kfree pageOracle address system.heap
    pure ⟨freed, system.live.erase address⟩

/-- Requests the buckets serve, pages that are not in use, and frees of blocks
handed out. -/
def Admissible (system : HeapSystem) : HeapCall → Prop
  | .kmalloc size answer => (1 ≤ size ∧ size ≤ 1024) ∧
      (answer = 0 ∨ answer % 4096 = 0 ∧ answer ∉ system.heap.held)
  | .kfree address => address ∈ system.live

instance (system : HeapSystem) : ∀ call, Decidable (system.Admissible call)
  | .kmalloc size answer => inferInstanceAs (Decidable ((1 ≤ size ∧ size ≤ 1024) ∧
      (answer = 0 ∨ answer % 4096 = 0 ∧ answer ∉ system.heap.held)))
  | .kfree address => inferInstanceAs (Decidable (address ∈ system.live))

/-- No block of a full page is given back. -/
def SparesFull (system : HeapSystem) : HeapCall → Prop
  | .kmalloc _ _ => True
  | .kfree address => (system.heap.pages (pageOf address)).blocksInUse ≠
      (system.heap.pages (pageOf address)).totalBlocks

instance (system : HeapSystem) : ∀ call, Decidable (system.SparesFull call)
  | .kmalloc _ _ => inferInstanceAs (Decidable True)
  | .kfree address => inferInstanceAs (Decidable
      ((system.heap.pages (pageOf address)).blocksInUse ≠
        (system.heap.pages (pageOf address)).totalBlocks))

theorem step_sound {system next : HeapSystem} {call : HeapCall}
    (sound : ∃ lists free, system.heap.Sound system.live lists free)
    (legal : system.Admissible call) (spared : system.SparesFull call)
    (stepped : system.step call = .ok next) :
    ∃ lists free, next.heap.Sound next.live lists free := by
  obtain ⟨lists, free, sound⟩ := sound
  cases call with
  | kmalloc size answer =>
    obtain ⟨address, after, newLists, newFree, granted, grantedSound⟩ :=
      kmalloc_sound pageOracle (sound.withRegions answer) legal.1.1 legal.1.2 rfl rfl legal.2
    obtain ⟨result, isResult, isNext⟩ := bind_eq_ok stepped
    rw [granted] at isResult
    cases isResult
    cases isNext
    exact ⟨newLists, newFree, grantedSound⟩
  | kfree address =>
    obtain ⟨freed, isFreed, isNext⟩ := bind_eq_ok stepped
    cases isNext
    exact kfree_sound sound legal spared isFreed

theorem step_returns {system : HeapSystem} {call : HeapCall}
    (sound : ∃ lists free, system.heap.Sound system.live lists free)
    (legal : system.Admissible call) (spared : system.SparesFull call) :
    ∃ next, system.step call = .ok next := by
  obtain ⟨lists, free, sound⟩ := sound
  cases call with
  | kmalloc size answer =>
    obtain ⟨address, after, _, _, granted, _⟩ :=
      kmalloc_sound pageOracle (sound.withRegions answer) legal.1.1 legal.1.2 rfl rfl legal.2
    unfold step
    dsimp only
    rw [granted]
    exact ⟨_, rfl⟩
  | kfree address =>
    unfold step
    dsimp only
    rw [kfree_eq pageOracle sound.blocks legal spared]
    split
    · exact ⟨_, rfl⟩
    · exact ⟨_, rfl⟩

def blankPage : PageDescriptor := ⟨0, 0, 0, 0, 0, 0⟩

def sparingCalls : List HeapCall :=
  [.kmalloc 1024 4096, .kmalloc 1000 0, .kmalloc 600 0, .kmalloc 8 8192, .kfree 8224,
    .kmalloc 100 12288]

end HeapSystem

end Fesos
