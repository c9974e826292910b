/-
The DMA allocations of memory/kmalloc.c.

`kallocate_dma` takes a run of frames and maps it like MMIO.  `kallocate_scatter_dma`
takes an array from kmalloc for the addresses of its frames, a range of the MMIO tree
that the VMA does not manage, and then one frame after the other.  The words of the
arrays are kept with the links of the heap's free blocks, which lie in the same memory.
-/

import Fesos.KmallocBlocks
import Fesos.Mmio

set_option autoImplicit false

namespace Fesos

structure DmaBlock where
  virtualAddr : Nat
  physicalAddr : Nat
  pageCount : Nat
  deriving DecidableEq, Repr

structure DmaScatterBlock where
  virtualAddr : Nat
  physicalAddrs : Nat
  pageCount : Nat
  deriving DecidableEq, Repr

def vmaSource : RegionSource Vma where
  allocate := fun size => Vma.vmaAllocateMemoryFromKtree size .regular slabFlags none
  touch := Vma.touch
  free := Vma.vmaFreeMemoryFromKtree

def Vma.kallocateDma (pageCount : Nat) (vma : Vma) : Except Fault (DmaBlock × Vma) := do
  let physicalAddress := vma.vmm.pmm.pmmAllocateFrames pageCount 0x1000
  let supplied : Vma := { vma with vmm := { vma.vmm with pmm := physicalAddress.2 } }
  if physicalAddress.1 = 0 then pure (⟨0, physicalAddress.1, pageCount⟩, supplied)
  else do
    let virtual ← kmapMmio physicalAddress.1 (word (4096 * pageCount)) .default supplied
    pure (⟨virtual.1, physicalAddress.1, pageCount⟩, virtual.2)

namespace Kmalloc

/-- The heap right after `kmalloc_init`, in cleared memory, over the given regions. -/
def overRegions {Regions : Type} (regions : Regions) : Kmalloc Regions :=
  kmallocInit
    { buckets := fun _ => ⟨0, 0, 0⟩
      pages := fun _ => ⟨0, 0, 0, 0, 0, 0⟩
      links := fun _ => 0
      regions := regions
      held := [] }

/-- `PT_GLOBAL | PT_WRITEABLE | PT_DISABLE_CACHING`. -/
def scatterFlags : Nat := 0x29

/-- Only `virtual_addr` of a block that was not allocated is set. -/
def noScatterBlock : DmaScatterBlock := ⟨0, 0, 0⟩

def arrayWord (physicalAddresses page : Nat) : Nat := word (physicalAddresses + 8 * page)

/-- The loop over the pages of a block; it is left when there is no frame for a page. -/
def mapScattered (physicalAddresses : Nat) :
    Nat → Nat → Nat → Kmalloc Vma → Except Fault (Bool × Kmalloc Vma)
  | 0, _, _, heap => .ok (true, heap)
  | remaining + 1, page, currentVAddress, heap =>
    let newFrame := heap.regions.vmm.pmm.pmmAllocateFrames 1 0x1000
    let supplied : Vmm := { heap.regions.vmm with pmm := newFrame.2 }
    if newFrame.1 = 0 then
      .ok (false, { heap with regions := { heap.regions with vmm := supplied } })
    else do
      let mapped := (supplied.vmmMap currentVAddress newFrame.1 1 scatterFlags).2
      let stored ← Vma.touch (arrayWord physicalAddresses page)
        { heap.regions with vmm := mapped }
      mapScattered physicalAddresses remaining (page + 1) (word (currentVAddress + 0x1000))
        ({ heap with regions := stored }.setLink (arrayWord physicalAddresses page) newFrame.1)

def kallocateScatterDma (pageCount : Nat) (heap : Kmalloc Vma) :
    Except Fault (DmaScatterBlock × Kmalloc Vma) :=
  if pageCount = 0 then .ok (noScatterBlock, heap)
  else do
    let physicalAddresses ← kmalloc vmaSource (word (8 * pageCount)) heap
    if physicalAddresses.1 = 0 then pure (noScatterBlock, physicalAddresses.2)
    else do
      let virtualAddress ← Vma.vmaAllocateMemoryFromKtree (scatterSize pageCount)
        .unmanagedMapping 0 (some ⟨1, 0⟩) physicalAddresses.2.regions
      let reserved := { physicalAddresses.2 with regions := virtualAddress.2 }
      if virtualAddress.1 = 0 then do
        let freed ← kfree vmaSource physicalAddresses.1 reserved
        pure (noScatterBlock, freed)
      else do
        let mapped ← mapScattered physicalAddresses.1 pageCount 0 virtualAddress.1 reserved
        if mapped.1 then
          pure (⟨virtualAddress.1, physicalAddresses.1, pageCount⟩, mapped.2)
        else do
          let freed ← kfree vmaSource physicalAddresses.1 mapped.2
          pure (noScatterBlock, freed)

/-- The frames are read back from the array one by one. -/
def freeScattered (physicalAddrs : Nat) :
    Nat → Nat → Kmalloc Vma → Except Fault (Kmalloc Vma)
  | 0, _, heap => .ok heap
  | remaining + 1, page, heap => do
    let read ← Vma.touch (arrayWord physicalAddrs page) heap.regions
    let pmm ← read.vmm.pmm.pmmFreeFrames (heap.links (arrayWord physicalAddrs page)) 1
    freeScattered physicalAddrs remaining (page + 1)
      { heap with regions := { read with vmm := { read.vmm with pmm := pmm } } }

def kfreeScatterDma (block : DmaScatterBlock) (heap : Kmalloc Vma) :
    Except Fault (Kmalloc Vma) := do
  let regions ← Vma.vmaFreeMemoryFromKtree block.virtualAddr heap.regions
  let freed ← freeScattered block.physicalAddrs block.pageCount 0 { heap with regions := regions }
  kfree vmaSource block.physicalAddrs freed

end Kmalloc

end Fesos
