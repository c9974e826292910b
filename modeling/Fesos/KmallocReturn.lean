/-
The regions behind a block that is handed out and given back.

A bucket with a page on its free list takes the block from there, and giving the block
back keeps the page as long as another block of it is in use.  Without such a page a
region of one page is allocated, and giving the block back frees that region.
-/

import Fesos.KmallocRuns

set_option autoImplicit false

namespace Fesos

open Library

namespace Kmalloc

variable {Regions : Type} {heap after : Kmalloc Regions}

/-! ### Handing out -/

theorem preparePage_regions (heap : Kmalloc Regions) (index page : Nat) (regions : Regions) :
    (heap.preparePage index page regions).regions = regions :=
  (threadBlocks_same _ _ _ _).2.2.2

section Sound

variable {source : RegionSource Regions} {lists : PageList → Nat → List Nat} {live : List Nat}
  {free : Nat → List Nat} {size address : Nat}

theorem kmalloc_room (sound : heap.Sound live lists free) (positive : 1 ≤ size)
    (small : size ≤ 1024) (room : heap.head .free (getBucketFromSize size) ≠ 0)
    (run : kmalloc source size heap = .ok (address, after)) :
    address ≠ 0 ∧ after.regions = heap.regions ∧ pageOf address ∈ heap.held ∧
      ∃ newLists newFree, after.Sound (address :: live) newLists newFree := by
  rw [kmalloc_bucket source positive small, if_neg room] at run
  obtain ⟨taken, state, newLists, newFree, taking, takenSound, nonzero, inPage, sameRegions⟩ :=
    takeBlock_sound sound room
  cases taking.symm.trans run
  rw [inPage]
  exact ⟨nonzero, sameRegions, (sound.first_page room).1.1, newLists, newFree, takenSound⟩

theorem kmalloc_refused (positive : 1 ≤ size) (small : size ≤ 1024)
    (empty : heap.head .free (getBucketFromSize size) = 0)
    (refused : source.allocate 4096 heap.regions = .ok (0, heap.regions)) :
    kmalloc source size heap = .ok (0, heap) := by
  rw [kmalloc_bucket source positive small, if_pos empty]
  unfold allocatePageForBucket
  rw [refused]
  rfl

/-- A bucket without room: the block lies in the page that was allocated. -/
theorem kmalloc_fresh (sound : heap.Sound live lists free) (positive : 1 ≤ size)
    (small : size ≤ 1024) (empty : heap.head .free (getBucketFromSize size) = 0) {page : Nat}
    {regions : Regions} (granted : source.allocate 4096 heap.regions = .ok (page, regions))
    (nonzero : page ≠ 0) (aligned : page % 4096 = 0) (fresh : page ∉ heap.held)
    (run : kmalloc source size heap = .ok (address, after)) :
    address ≠ 0 ∧ pageOf address = page ∧ source.touch page regions = .ok after.regions ∧
      ∃ newLists newFree, after.Sound (address :: live) newLists newFree := by
  have bounded := getBucketFromSize_lt size small
  rw [kmalloc_bucket source positive small, if_pos empty] at run
  cases touching : source.touch page regions with
  | error fault =>
    unfold allocatePageForBucket at run
    rw [granted, ok_bind] at run
    dsimp only at run
    rw [if_neg nonzero, touching] at run
    cases run
  | ok touched =>
    rw [allocatePageForBucket_eq granted nonzero touching, ok_bind,
      if_neg (fun notZero => notZero rfl)] at run
    obtain ⟨newLists, newFree, prepared⟩ := sound.prepared touched bounded aligned nonzero fresh
    have isFirst : ((heap.preparePage (getBucketFromSize size) page touched).pushFront .free
        (getBucketFromSize size) page).head .free (getBucketFromSize size) = page := by
      rw [pushFront_head, if_pos ⟨rfl, rfl⟩]
    rw [← isFirst] at nonzero
    obtain ⟨taken, state, takenLists, takenFree, taking, takenSound, takenNonzero, inPage,
      sameRegions⟩ := takeBlock_sound prepared nonzero
    cases taking.symm.trans run
    refine ⟨takenNonzero, inPage.trans isFirst, ?_, takenLists, takenFree, takenSound⟩
    rw [sameRegions, (pushFront_relinked .free _ page _).regions, preparePage_regions]

/-! ### Giving back -/

theorem unfill_regions {index page : Nat} (run : unfill index page heap = .ok after) :
    after.regions = heap.regions := by
  unfold unfill at run
  dsimp only at run
  split at run
  · cases run
  cases run
  have same := (unlink_relinked .full index page heap).regions
  split
  · exact same
  · exact same

theorem kfree_regions (run : kfree source address heap = .ok after) :
    after.regions = heap.regions ∨ source.free (pageOf address) heap.regions = .ok after.regions := by
  unfold kfree at run
  dsimp only at run
  split at run
  · rename_i aligned
    obtain ⟨regions, freed, rest⟩ := bind_eq_ok run
    cases rest
    right
    unfold pageOf
    rw [aligned]
    exact freed
  · split at run
    · have returned := unfill_regions run
      exact Or.inl returned
    · split at run
      · obtain ⟨regions, freed, rest⟩ := bind_eq_ok run
        cases rest
        rw [(unlink_relinked .free _ _ _).regions] at freed
        exact Or.inr freed
      · cases run
        exact Or.inl rfl

theorem kfree_shared (sound : heap.Blocks live free) (isLive : address ∈ live)
    (shared : 1 < (usedIn live (pageOf address)).length)
    (run : kfree source address heap = .ok after) : after.regions = heap.regions := by
  have counted := sound.inUse_pred isLive
  have inUse := (sound.pages _ (sound.live address isLive)).inUse
  by_cases full : (heap.pages (pageOf address)).blocksInUse =
      (heap.pages (pageOf address)).totalBlocks
  · have inPage := ((sound.pages _ (sound.live address isLive)).block
      (List.mem_append_right _ (mem_usedIn isLive rfl))).2
    unfold kfree at run
    dsimp only at run
    rw [if_neg inPage, returnBlock_same] at run
    rw [if_pos (counted.trans full)] at run
    have returned := unfill_regions run
    exact returned
  · rw [kfree_eq source sound isLive full, if_neg (by omega)] at run
    cases run
    rfl

theorem kfree_last (sound : heap.Blocks live free) (isLive : address ∈ live)
    (alone : (usedIn live (pageOf address)).length = 1)
    (run : kfree source address heap = .ok after) :
    source.free (pageOf address) heap.regions = .ok after.regions := by
  have here := sound.pages _ (sound.live address isLive)
  have several := (bucket_fits _ here.index).2.2.2.1
  have inUse := here.inUse
  rw [← here.total] at several
  rw [kfree_eq source sound isLive (by omega), if_pos (by omega)] at run
  obtain ⟨regions, freed, rest⟩ := bind_eq_ok run
  cases rest
  rw [(unlink_relinked .free _ _ _).regions] at freed
  exact freed

end Sound

end Kmalloc

end Fesos
