/-
What kmalloc's answer has room for.

Up to 1024 bytes the smallest bucket that holds the request is chosen.  Beyond, the
request is rounded up to whole pages; within the last page of the address space the
sum wraps, and the region allocator is asked for nothing.
-/

import Fesos.Dma

set_option autoImplicit false

namespace Fesos

/-- A region allocator that notes the sizes it is asked for, the latest first. -/
def RegionSource.noting {Regions : Type} (source : RegionSource Regions) :
    RegionSource (Regions × List Nat) where
  allocate := fun size state => do
    let allocated ← source.allocate size state.1
    pure (allocated.1, (allocated.2, size :: state.2))
  touch := fun address state => do
    let touched ← source.touch address state.1
    pure (touched, state.2)
  free := fun address state => do
    let freed ← source.free address state.1
    pure (freed, state.2)

/-! ### Both ways to a size -/

theorem getBucketFromSize_fits : ∀ size ≤ 1024, 1 ≤ size →
    size ≤ bucketSizeOf (getBucketFromSize size) ∧
      ∀ smaller < getBucketFromSize size, bucketSizeOf smaller < size := by
  decide +kernel

theorem roundToPages_iff {size : Nat} (positive : 1 ≤ size) (bounded : size < 2 ^ 64) :
    size ≤ roundToPages size ↔ size ≤ 2 ^ 64 - 4096 := by
  unfold roundToPages
  by_cases whole : size % 4096 = 0
  · rw [if_pos whole]
    omega
  · rw [if_neg whole]
    unfold word
    omega

namespace Kmalloc

section Capacity

variable {Regions : Type} {source : RegionSource Regions}
  {heap after : Kmalloc (Regions × List Nat)} {size address : Nat}

/-- The block comes from the smallest bucket with room for it, or the region asked for has
room for it. -/
structure Holds (size address : Nat) (heap after : Kmalloc (Regions × List Nat)) : Prop where
  bucket : size ≤ 1024 → ∃ state : Kmalloc (Regions × List Nat),
    takeBlock (getBucketFromSize size) state = .ok (address, after) ∧
      size ≤ (state.buckets (getBucketFromSize size)).bucketSize ∧
      ∀ smaller < getBucketFromSize size, (state.buckets smaller).bucketSize < size
  pages : 1024 < size → ∃ requested,
    after.regions.2 = requested :: heap.regions.2 ∧ size ≤ requested

/-- A page for a bucket leaves the sizes of all buckets. -/
theorem allocatePageForBucket_sizes {Pages : Type} {pages : RegionSource Pages} {bucketId : Nat}
    {heap supplied : Kmalloc Pages} {status : Nat}
    (run : allocatePageForBucket pages bucketId heap = .ok (status, supplied)) (index : Nat) :
    (supplied.buckets index).bucketSize = (heap.buckets index).bucketSize := by
  cases granted : pages.allocate 4096 heap.regions with
  | error fault =>
    unfold allocatePageForBucket at run
    rw [granted] at run
    cases run
  | ok result =>
    obtain ⟨page, regions⟩ := result
    by_cases refused : page = 0
    · unfold allocatePageForBucket at run
      rw [granted, ok_bind, if_pos refused] at run
      cases run
      rfl
    cases touching : pages.touch page regions with
    | error fault =>
      unfold allocatePageForBucket at run
      rw [granted, ok_bind] at run
      dsimp only at run
      rw [if_neg refused, touching] at run
      cases run
    | ok touched =>
      rw [allocatePageForBucket_eq granted refused touching] at run
      cases run
      rw [(pushFront_relinked .free _ page _).sizes, preparePage_buckets]

theorem kmalloc_takes (positive : 1 ≤ size) (small : size ≤ 1024) (nonnull : address ≠ 0)
    (run : kmalloc source.noting size heap = .ok (address, after)) :
    ∃ state : Kmalloc (Regions × List Nat),
      takeBlock (getBucketFromSize size) state = .ok (address, after) ∧
        ∀ index, (state.buckets index).bucketSize = (heap.buckets index).bucketSize := by
  rw [kmalloc_bucket _ positive small] at run
  split at run
  · obtain ⟨⟨status, supplied⟩, supplying, rest⟩ := bind_eq_ok run
    dsimp only at rest
    split at rest
    · cases rest
      exact absurd rfl nonnull
    · exact ⟨supplied, rest, allocatePageForBucket_sizes supplying⟩
  · exact ⟨heap, run, fun _ => rfl⟩

theorem kmalloc_requests (large : 1024 < size)
    (run : kmalloc source.noting size heap = .ok (address, after)) :
    after.regions.2 = roundToPages size :: heap.regions.2 := by
  rw [kmalloc_large _ large] at run
  obtain ⟨⟨start, regions⟩, granted, rest⟩ := bind_eq_ok run
  cases rest
  obtain ⟨⟨base, inner⟩, _, noted⟩ := bind_eq_ok granted
  cases noted
  rfl

end Capacity

/-- What kmalloc hands out has room for the request exactly up to the last whole page of
the address space. -/
theorem kmalloc_holds_iff {Regions : Type} (source : RegionSource Regions)
    (heap : Kmalloc (Regions × List Nat))
    (sizes : ∀ index < 7, (heap.buckets index).bucketSize = bucketSizeOf index) (size : Nat)
    (positive : 1 ≤ size) (bounded : size < 2 ^ 64) (address : Nat)
    (after : Kmalloc (Regions × List Nat))
    (run : kmalloc source.noting size heap = .ok (address, after)) (nonnull : address ≠ 0) :
    Holds size address heap after ↔ size ≤ 2 ^ 64 - 4096 := by
  by_cases large : 1024 < size
  · have requests := kmalloc_requests large run
    constructor
    · intro holds
      obtain ⟨requested, noted, enough⟩ := holds.pages large
      rw [requests] at noted
      rw [← (List.cons.inj noted).1] at enough
      exact (roundToPages_iff positive bounded).mp enough
    · intro below
      constructor
      · intro small
        omega
      · intro _
        exact ⟨_, requests, (roundToPages_iff positive bounded).mpr below⟩
  · have small := Nat.not_lt.mp large
    obtain ⟨state, taking, same⟩ := kmalloc_takes positive small nonnull run
    obtain ⟨enough, least⟩ := getBucketFromSize_fits size small positive
    have index := getBucketFromSize_lt size small
    constructor
    · intro _
      omega
    · intro _
      constructor
      · intro _
        refine ⟨state, taking, ?_, ?_⟩
        · rw [same, sizes _ index]
          exact enough
        · intro smaller below
          rw [same, sizes smaller (by omega)]
          exact least smaller below
      · intro isLarge
        exact absurd isLarge large

/-- 5000 bytes right after `vma_init` and `kmalloc_init`. -/
theorem kmalloc_holds_iff_twoPages : ∃ initial address after,
    Vma.vmaInit Vmm.emptyTables = .ok initial ∧
    kmalloc vmaSource.noting 5000 (overRegions (initial, [])) = .ok (address, after) ∧
    Holds 5000 address (overRegions (initial, [])) after := by
  obtain ⟨initial, started, checked⟩ : ∃ initial, Vma.vmaInit Vmm.emptyTables = .ok initial ∧
      (kmalloc vmaSource.noting 5000 (overRegions (initial, []))).toOption.any (fun result =>
        decide (result.1 ≠ 0)) = true :=
    exists_of_checked _ (by decide +kernel)
  cases run : kmalloc vmaSource.noting 5000 (overRegions (initial, [])) with
  | error fault =>
    rw [run] at checked
    cases checked
  | ok result =>
    rw [run] at checked
    refine ⟨initial, result.1, result.2, started, run, ?_⟩
    exact (kmalloc_holds_iff vmaSource (overRegions (initial, [])) (by intro index _; rfl) 5000
      (by decide) (by decide) result.1 result.2 run (of_decide_eq_true checked)).mpr (by decide)

/-- All bytes but one of the address space: the region allocator is asked for no byte, and
kmalloc returns the start of a region. -/
theorem kmalloc_wraps_request : ∃ initial address after,
    Vma.vmaInit Vmm.emptyTables = .ok initial ∧
    kmalloc vmaSource.noting (2 ^ 64 - 1) (overRegions (initial, [])) = .ok (address, after) ∧
    address ≠ 0 ∧ after.regions.2 = [0] ∧
    ¬ Holds (2 ^ 64 - 1) address (overRegions (initial, [])) after := by
  obtain ⟨initial, started, checked⟩ : ∃ initial, Vma.vmaInit Vmm.emptyTables = .ok initial ∧
      (kmalloc vmaSource.noting (2 ^ 64 - 1) (overRegions (initial, []))).toOption.any
        (fun result => decide (result.1 ≠ 0 ∧ result.2.regions.2 = [0])) = true :=
    exists_of_checked _ (by decide +kernel)
  cases run : kmalloc vmaSource.noting (2 ^ 64 - 1) (overRegions (initial, [])) with
  | error fault =>
    rw [run] at checked
    cases checked
  | ok result =>
    rw [run] at checked
    obtain ⟨nonnull, requests⟩ := of_decide_eq_true checked
    refine ⟨initial, result.1, result.2, started, run, nonnull, requests, ?_⟩
    intro holds
    obtain ⟨requested, noted, enough⟩ := holds.pages (by decide)
    rw [requests] at noted
    rw [← (List.cons.inj noted).1] at enough
    exact absurd enough (by decide)

end Kmalloc

end Fesos
