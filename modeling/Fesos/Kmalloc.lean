/-
The kernel heap of memory/kmalloc.c.

A bucket page starts with its descriptor; the rest is cut into blocks, and the
free ones are chained through their first word.  Each bucket has two doubly linked
lists of pages.  Pages, descriptors and blocks are addresses, 0 is NULL; `links`
is the first word of a block.  The region allocator underneath is a parameter, and
`touch` is the first access to a page it returned.  `held` is a ghost record of the
bucket pages that have not been given back.
-/

import Fesos.Machine

set_option autoImplicit false

namespace Fesos

structure PageDescriptor where
  bucketIndex : Nat
  blocksInUse : Nat
  totalBlocks : Nat
  freeList : Nat
  nextPageDescriptor : Nat
  prevPageDescriptor : Nat
  deriving DecidableEq, Repr

structure Bucket where
  bucketSize : Nat
  freePageList : Nat
  fullPageList : Nat
  deriving DecidableEq, Repr

/-- The calls kmalloc makes of the region allocator: regular memory of the given
size, a first access, and a free. -/
structure RegionSource (Regions : Type) where
  allocate : Nat → Regions → Except Fault (Nat × Regions)
  touch : Nat → Regions → Except Fault Regions
  free : Nat → Regions → Except Fault Regions

structure Kmalloc (Regions : Type) where
  buckets : Nat → Bucket
  pages : Nat → PageDescriptor
  links : Nat → Nat
  regions : Regions
  held : List Nat

/-- `sizeof(kmalloc_page_descriptor_t)`. -/
def descriptorSize : Nat := 32

def bucketSizes : List Nat := [16, 32, 64, 128, 256, 512, 1024]

def smallBucketAggregates : Nat := 4

/-! ### Choice of the bucket -/

/-- `__builtin_ctzll`, for arguments with a set bit below `2 ^ fuel`. -/
def trailingZeros : Nat → Nat → Nat
  | 0, _ => 0
  | fuel + 1, value => if value % 2 = 1 then 0 else trailingZeros fuel (value / 2) + 1

/-- `__builtin_clzll`. -/
def leadingZeros (value : Nat) : Nat := 63 - Nat.log2 value

/-- 255 asks for whole pages. -/
def getBucketFromSize (size : Nat) : Nat :=
  if size > 1024 then 255
  else if size < 16 then 0
  else if leadingZeros size + trailingZeros 64 size + 1 = 64 then
    trailingZeros 64 size - smallBucketAggregates
  else 64 - leadingZeros size - smallBucketAggregates

def roundToPages (size : Nat) : Nat :=
  if size % 4096 = 0 then size else word (size + (4096 - size % 4096))

inductive MmioFlags where
  | default
  | writeCombining
  deriving DecidableEq, Repr

/-- `PT_GLOBAL | PT_WRITEABLE`, and `PT_DISABLE_CACHING` by default. -/
def MmioFlags.vmmFlags : MmioFlags → Nat
  | .default => 0x29
  | .writeCombining => 0x21

/-- The bytes `kmap_mmio` asks for: from the page of the address to the end of the
last page. -/
def mmioSize (physicalAddress size : Nat) : Nat :=
  word (word (size + physicalAddress % 4096) + 0xFFF) / 4096 * 4096

def scatterSize (pageCount : Nat) : Nat := word (pageCount * 0x1000)

def firstBlock (bucketSize : Nat) : Nat := max bucketSize descriptorSize

def blocksPerPage (bucketSize : Nat) : Nat := (4096 - firstBlock bucketSize) / bucketSize

namespace Kmalloc

variable {Regions : Type}

/-! ### Stores -/

def setPage (heap : Kmalloc Regions) (page : Nat) (descriptor : PageDescriptor) :
    Kmalloc Regions :=
  { heap with pages := Function.update heap.pages page descriptor }

def setNext (heap : Kmalloc Regions) (page value : Nat) : Kmalloc Regions :=
  heap.setPage page { heap.pages page with nextPageDescriptor := value }

def setPrev (heap : Kmalloc Regions) (page value : Nat) : Kmalloc Regions :=
  heap.setPage page { heap.pages page with prevPageDescriptor := value }

def setBucket (heap : Kmalloc Regions) (index : Nat) (bucket : Bucket) : Kmalloc Regions :=
  { heap with buckets := Function.update heap.buckets index bucket }

def setFree (heap : Kmalloc Regions) (index page : Nat) : Kmalloc Regions :=
  heap.setBucket index { heap.buckets index with freePageList := page }

def setFull (heap : Kmalloc Regions) (index page : Nat) : Kmalloc Regions :=
  heap.setBucket index { heap.buckets index with fullPageList := page }

def setLink (heap : Kmalloc Regions) (block value : Nat) : Kmalloc Regions :=
  { heap with links := Function.update heap.links block value }

/-- `if (page) page->prev_page_descriptor = value`. -/
def setPrevIfAny (heap : Kmalloc Regions) (page value : Nat) : Kmalloc Regions :=
  if page ≠ 0 then heap.setPrev page value else heap

/-! ### Initialisation -/

def kmallocInit (heap : Kmalloc Regions) : Kmalloc Regions :=
  { heap with
    buckets := fun index =>
      { heap.buckets index with
        bucketSize := bucketSizes.getD index (heap.buckets index).bucketSize } }

/-! ### Allocation -/

/-- The loop that chains the blocks of a new page; the last block keeps the word
that was in it. -/
def threadBlocks (bucketSize : Nat) : Nat → Nat → Kmalloc Regions → Kmalloc Regions
  | 0, _, heap => heap
  | count + 1, hole, heap =>
    threadBlocks bucketSize count (hole + bucketSize) (heap.setLink hole (hole + bucketSize))

/-- The status is 1 when there is no room for a page. -/
def allocatePageForBucket (source : RegionSource Regions) (bucketId : Nat)
    (heap : Kmalloc Regions) : Except Fault (Nat × Kmalloc Regions) := do
  let allocated ← source.allocate 4096 heap.regions
  let newPage := allocated.1
  if newPage = 0 then pure (1, { heap with regions := allocated.2 })
  else do
    let touched ← source.touch newPage allocated.2
    let bucketSize := (heap.buckets bucketId).bucketSize
    let described := { heap with regions := touched, held := newPage :: heap.held }.setPage newPage
      { heap.pages newPage with
        totalBlocks := blocksPerPage bucketSize
        blocksInUse := 0
        bucketIndex := bucketId
        freeList := newPage + firstBlock bucketSize }
    let threaded := threadBlocks bucketSize (blocksPerPage bucketSize - 1)
      (newPage + firstBlock bucketSize) described
    let first := (threaded.buckets bucketId).freePageList
    let linked := ((threaded.setPrevIfAny first newPage).setPrev newPage 0).setNext newPage first
    pure (0, linked.setFree bucketId newPage)

/-- Move the first page of a bucket's free list to its full list. -/
def moveToFull (bucketId : Nat) (heap : Kmalloc Regions) : Kmalloc Regions :=
  let fullPage := (heap.buckets bucketId).freePageList
  let next := (heap.pages fullPage).nextPageDescriptor
  let unlinked := (heap.setFree bucketId next).setPrevIfAny next 0
  let first := (unlinked.buckets bucketId).fullPageList
  (((unlinked.setPrevIfAny first fullPage).setPrev fullPage 0).setNext fullPage first).setFull
    bucketId fullPage

/-- Hand out the first free block of the bucket's first free page. -/
def takeBlock (bucketId : Nat) (heap : Kmalloc Regions) :
    Except Fault (Nat × Kmalloc Regions) :=
  let page := (heap.buckets bucketId).freePageList
  if page = 0 then .error .nullDereference
  else
    let descriptor := heap.pages page
    let allocAddr := descriptor.freeList
    let inUse := (descriptor.blocksInUse + 1) % 2 ^ 16
    let taken := heap.setPage page
      { descriptor with blocksInUse := inUse, freeList := heap.links allocAddr }
    if inUse = descriptor.totalBlocks then .ok (allocAddr, taken.moveToFull bucketId)
    else .ok (allocAddr, taken)

def kmalloc (source : RegionSource Regions) (size : Nat) (heap : Kmalloc Regions) :
    Except Fault (Nat × Kmalloc Regions) :=
  if size = 0 then .ok (0, heap)
  else
    let bucketId := getBucketFromSize size
    if bucketId = 255 then do
      let allocated ← source.allocate (roundToPages size) heap.regions
      pure (allocated.1, { heap with regions := allocated.2 })
    else if (heap.buckets bucketId).freePageList = 0 then do
      let supplied ← allocatePageForBucket source bucketId heap
      if supplied.1 ≠ 0 then pure (0, supplied.2) else takeBlock bucketId supplied.2
    else takeBlock bucketId heap

/-! ### Freeing -/

inductive PageList where
  | free
  | full
  deriving DecidableEq, Repr

def setHead (heap : Kmalloc Regions) (list : PageList) (index page : Nat) : Kmalloc Regions :=
  match list with
  | .free => heap.setFree index page
  | .full => heap.setFull index page

/-- Take a page out of the list it is on, which is one of the given kind. -/
def unlink (list : PageList) (bucketIndex page : Nat) (heap : Kmalloc Regions) :
    Kmalloc Regions :=
  let prev := (heap.pages page).prevPageDescriptor
  let next := (heap.pages page).nextPageDescriptor
  let passed := if prev = 0 then heap.setHead list bucketIndex next else heap.setNext prev next
  passed.setPrevIfAny next prev

/-- A page that is no longer full.  The test is of the free list, the store goes
through the head of the full list, and the page is put on the full list of the
first bucket. -/
def unfill (bucketIndex page : Nat) (heap : Kmalloc Regions) : Except Fault (Kmalloc Regions) :=
  let unlinked := heap.unlink .full bucketIndex page
  let bucket := unlinked.buckets bucketIndex
  if bucket.freePageList ≠ 0 ∧ bucket.fullPageList = 0 then .error .nullDereference
  else
    let stored :=
      if bucket.freePageList ≠ 0 then unlinked.setPrev bucket.fullPageList page else unlinked
    let first := (stored.buckets 0).fullPageList
    .ok (((stored.setPrev page 0).setNext page first).setFull 0 page)

/-- A page without blocks in use is given back. -/
def cull (source : RegionSource Regions) (bucketIndex page : Nat) (heap : Kmalloc Regions) :
    Except Fault (Kmalloc Regions) := do
  let unlinked := heap.unlink .free bucketIndex page
  let regions ← source.free page unlinked.regions
  pure { unlinked with regions := regions, held := unlinked.held.erase page }

/-- `ptr & ~0xFFF`. -/
def pageOf (address : Nat) : Nat := address - address % 4096

/-- Chain a block in front of the free blocks of its page and count it off. -/
def returnBlock (address : Nat) (heap : Kmalloc Regions) : Kmalloc Regions :=
  let page := pageOf address
  let descriptor := heap.pages page
  (heap.setLink address descriptor.freeList).setPage page
    { descriptor with
      freeList := address
      blocksInUse := (descriptor.blocksInUse + (2 ^ 16 - 1)) % 2 ^ 16 }

/-- An address at the start of a page is taken for a large allocation. -/
def kfree (source : RegionSource Regions) (address : Nat) (heap : Kmalloc Regions) :
    Except Fault (Kmalloc Regions) :=
  if address % 4096 = 0 then do
    let regions ← source.free address heap.regions
    pure { heap with regions := regions }
  else
    let returned := heap.returnBlock address
    let page := pageOf address
    let descriptor := returned.pages page
    if descriptor.blocksInUse + 1 = descriptor.totalBlocks then
      returned.unfill descriptor.bucketIndex page
    else if descriptor.blocksInUse = 0 then returned.cull source descriptor.bucketIndex page
    else .ok returned

end Kmalloc

end Fesos
