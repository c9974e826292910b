/-
The page tables of memory/vmm.c.

A table is named by the frame that holds it; the code reaches it through the
direct map, so `table->entries[index]` is `ram table index`.  A table pointer
returned by the walk after a failed frame allocation is the one of frame 0, as
in the source.  `stores` is a history variable: the values of all entry stores,
the latest first.  No operation reads it.
-/

import Fesos.PmmScan

set_option autoImplicit false

namespace Fesos

structure Vmm where
  pmm : Pmm
  pml4 : Nat
  stores : List PageTableEntry

namespace Vmm

/-- `(v_addr >> shift) & 0x1FF`. -/
def tableIndex (vAddr shift : Nat) : Fin 512 := Fin.ofNat 512 (vAddr >>> shift)

def pml4Index (vAddr : Nat) : Fin 512 := tableIndex vAddr 39
def pdptIndex (vAddr : Nat) : Fin 512 := tableIndex vAddr 30
def pdIndex (vAddr : Nat) : Fin 512 := tableIndex vAddr 21
def ptIndex (vAddr : Nat) : Fin 512 := tableIndex vAddr 12

def entry (vmm : Vmm) (table : Nat) (index : Fin 512) : PageTableEntry :=
  vmm.pmm.ram table index

def storeEntry (vmm : Vmm) (table : Nat) (index : Fin 512) (value : PageTableEntry) : Vmm :=
  let row := Function.update (vmm.pmm.ram table) index value
  { vmm with
    pmm := { vmm.pmm with ram := Function.update vmm.pmm.ram table row }
    stores := value :: vmm.stores }

/-- The same state on other memory and another root table. -/
def onMemory (vmm : Vmm) (ram : Nat → Fin 512 → PageTableEntry) (pml4 : Nat) : Vmm :=
  { vmm with
    pmm := { vmm.pmm with ram := ram }
    pml4 := pml4 }

def tableEntry (old : PageTableEntry) (frame : Nat) : PageTableEntry :=
  { old with
    present := true
    writeable := true
    userAvailable := true
    physicalAddress := physicalField frame }

def vmmWalkAndCrateNextTable (vmm : Vmm) (table : Nat) (index : Fin 512) : Nat × Vmm :=
  if (vmm.entry table index).present = false then
    let allocated := vmm.pmm.pmmAllocateFrames 1 4096
    let supplied : Vmm := { vmm with pmm := allocated.2 }
    (allocated.1 >>> 12, supplied.storeEntry table index
      (tableEntry (supplied.entry table index) (allocated.1 >>> 12)))
  else ((vmm.entry table index).physicalAddress, vmm)

/-- The walk down to the page directory, common to all operations. -/
def walkToPd (vmm : Vmm) (vAddr : Nat) : Nat × Vmm :=
  let pdpt := vmm.vmmWalkAndCrateNextTable vmm.pml4 (pml4Index vAddr)
  pdpt.2.vmmWalkAndCrateNextTable pdpt.1 (pdptIndex vAddr)

def flagBit (flags bit : Nat) : Bool := flags.testBit bit

def smallLeaf (old : PageTableEntry) (pAddr flags : Nat) : PageTableEntry :=
  { old with
    present := true
    writeable := flagBit flags 0
    userAvailable := flagBit flags 1
    writeThrough := flagBit flags 2
    disableCaching := flagBit flags 3
    global := flagBit flags 5
    executeDisable := flagBit flags 6
    physicalAddress := physicalField (pAddr >>> 12) }

/-- The bit-field stores made on a 2 MiB leaf: the low nine bits of the frame
number are dropped. -/
def hugeLeaf (old : PageTableEntry) (pAddr flags : Nat) : PageTableEntry :=
  { old with
    present := true
    writeable := flagBit flags 0
    userAvailable := flagBit flags 1
    writeThrough := flagBit flags 2
    disableCaching := flagBit flags 3
    hugePage := true
    global := flagBit flags 5
    executeDisable := flagBit flags 6
    physicalAddress := physicalField ((pAddr >>> 12) / 512 * 512) }

/-- The page loop of `vmmMap`.  A huge page advances the virtual address only. -/
def mapPages (flags : Nat) : Nat → Nat → Nat → Vmm → Int × Vmm
  | 0, _, _, vmm => (0, vmm)
  | pages + 1, vAddr, pAddr, vmm =>
    let pd := vmm.walkToPd vAddr
    if flagBit flags 4 then
      if (pd.2.entry pd.1 (pdIndex vAddr)).present then (-EEXIST, pd.2)
      else
        mapPages flags pages (word (vAddr + 0x200000)) pAddr
          (pd.2.storeEntry pd.1 (pdIndex vAddr)
            (hugeLeaf (pd.2.entry pd.1 (pdIndex vAddr)) pAddr flags))
    else
      let pt := pd.2.vmmWalkAndCrateNextTable pd.1 (pdIndex vAddr)
      if (pt.2.entry pt.1 (ptIndex vAddr)).present then (-EEXIST, pt.2)
      else
        mapPages flags pages (word (vAddr + 0x1000)) (word (pAddr + 0x1000))
          (pt.2.storeEntry pt.1 (ptIndex vAddr)
            (smallLeaf (pt.2.entry pt.1 (ptIndex vAddr)) pAddr flags))

def vmmMap (vmm : Vmm) (vAddr pAddr pages flags : Nat) : Int × Vmm :=
  if pages = 0 then (-EINVAL, vmm) else mapPages flags pages vAddr pAddr vmm

def unmapPages : Nat → Nat → Vmm → Vmm
  | 0, _, vmm => vmm
  | pages + 1, vAddr, vmm =>
    let pd := vmm.walkToPd vAddr
    if (pd.2.entry pd.1 (pdIndex vAddr)).hugePage then
      unmapPages pages (word (vAddr + 0x200000))
        (pd.2.storeEntry pd.1 (pdIndex vAddr) PageTableEntry.zero)
    else
      let pt := pd.2.vmmWalkAndCrateNextTable pd.1 (pdIndex vAddr)
      unmapPages pages (word (vAddr + 0x1000))
        (pt.2.storeEntry pt.1 (ptIndex vAddr) PageTableEntry.zero)

def vmmUnmap (vmm : Vmm) (vAddr pages : Nat) : Int × Vmm :=
  if pages = 0 then (-EINVAL, vmm) else (0, unmapPages pages vAddr vmm)

def vmmGetPhysicalFromVirtual (vmm : Vmm) (vAddr : Nat) : Nat × Vmm :=
  let pd := vmm.walkToPd vAddr
  if (pd.2.entry pd.1 (pdIndex vAddr)).hugePage then
    (word ((pd.2.entry pd.1 (pdIndex vAddr)).physicalAddress <<< 12), pd.2)
  else
    let pt := pd.2.vmmWalkAndCrateNextTable pd.1 (pdIndex vAddr)
    (word ((pt.2.entry pt.1 (ptIndex vAddr)).physicalAddress <<< 12 + vAddr % 4096), pt.2)

/-- The entry's address is given by its table and its index in the table. -/
def vmmGetPte (vmm : Vmm) (vAddr : Nat) : (Nat × Fin 512) × Vmm :=
  let pd := vmm.walkToPd vAddr
  if (pd.2.entry pd.1 (pdIndex vAddr)).hugePage then ((pd.1, pdIndex vAddr), pd.2)
  else
    let pt := pd.2.vmmWalkAndCrateNextTable pd.1 (pdIndex vAddr)
    ((pt.1, ptIndex vAddr), pt.2)

end Vmm

end Fesos
