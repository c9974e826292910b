/-
The boot loader of bootloader/efi.c, from the first memory map to the jump to the
kernel.

The firmware is a record of answers: what each AllocatePages call returns, what
each GetMemoryMap call reports, and the status of every other service.  Addresses
of whole frames are given by frame numbers.  Memory is kept in three views that
the loader never lets overlap as long as no frame is handed out twice: the bitmap,
the frames used as tables, and the bytes of the loaded segments.  `allocated`,
`marked`, `segmentFrames` and `stackFrames` are history variables, each with the
latest first: the answers of AllocatePages, the frames whose bit was set, and the
frames taken for segments and for the stack.  Console output and the frame buffer
fields have no counterpart.
-/

import Fesos.Vmm

set_option autoImplicit false

namespace Fesos

inductive MemoryType where
  | reservedMemoryType
  | loaderCode
  | loaderData
  | bootServicesCode
  | bootServicesData
  | runtimeServicesCode
  | runtimeServicesData
  | conventionalMemory
  | unusableMemory
  | acpiReclaimMemory
  | acpiMemoryNVS
  | memoryMappedIo
  | memoryMappedIoPortSpace
  | palCode
  | persistentMemory
  | unacceptedMemoryType
  | vendor (value : Nat)
  deriving DecidableEq, Repr

def MemoryType.usable : MemoryType → Bool
  | .conventionalMemory | .loaderCode | .loaderData | .bootServicesCode
  | .bootServicesData => true
  | _ => false

/-- The types counted as system memory. -/
def MemoryType.systemRam : MemoryType → Bool
  | .acpiReclaimMemory | .acpiMemoryNVS | .runtimeServicesCode | .runtimeServicesData => true
  | type => type.usable

def MemoryType.directMapped : MemoryType → Bool
  | .acpiReclaimMemory => true
  | type => type.usable

structure MemoryDescriptor where
  type : MemoryType
  physicalStart : Nat
  numberOfPages : Nat
  deriving DecidableEq, Repr

inductive Service where
  | locateGop
  | loadedImage
  | fileSystem
  | openVolume
  | openKernel
  | allocatePool
  | fileInfo
  | readKernel
  | exitBootServices
  deriving DecidableEq, Repr

structure Firmware where
  allocatePages : Nat → Except Nat Nat
  mapSize : Nat → Nat
  descriptorSize : Nat
  memoryMap : Nat → Except Nat (List MemoryDescriptor)
  status : Service → Nat
  fileSize : Nat
  file : Nat → UInt8
  gdt64 : Nat
  gdt64Ptr : Nat

inductive Halt where
  | efiError (message : String) (status : Nat)
  | invalidElf
  | endless
  deriving DecidableEq, Repr

structure Loader where
  bitmap : Nat → UInt8
  ram : Nat → Fin 512 → PageTableEntry
  bytes : Nat → UInt8
  pml4 : Nat
  memoryBitmapAddress : Nat
  memoryBitmapSize : Nat
  memoryPhysicalTotalFrames : Nat
  memoryPhysicalUsedFrames : Nat
  bootInfo : Nat
  allocated : List (Nat × Nat)
  marked : List Nat
  segmentFrames : List Nat
  stackFrames : List Nat

def directMapBase : Nat := 0xFFFF888000000000
def kernelStackBase : Nat := 0xFFFFFFFF80000000
def kernelStackPageCount : Nat := 8
def ptWriteable : Nat := 0x1
def ptGlobal : Nat := 0x20

def checkEfiError (status : Nat) (message : String) : Except Halt Unit :=
  if status ≠ 0 then .error (.efiError message status) else .ok ()

namespace Loader

def allocatePages (loader : Loader) (firmware : Firmware) (pages : Nat) (message : String) :
    Except Halt (Nat × Loader) :=
  match firmware.allocatePages loader.allocated.length with
  | .error status => .error (.efiError message status)
  | .ok frame => .ok (frame, { loader with allocated := (frame, pages) :: loader.allocated })

/-- `call` numbers the calls; the map of each is as the firmware sees it then. -/
def getMemoryMap (loader : Loader) (firmware : Firmware) (call : Nat) :
    Except Halt (List MemoryDescriptor × Loader) := do
  let buffer ← loader.allocatePages firmware
    ((firmware.mapSize call + 2 * firmware.descriptorSize + 4095) / 4096)
    "Unable to allocate memory for memory map!"
  match firmware.memoryMap call with
  | .error status => .error (.efiError "Unable to execute getmap!" status)
  | .ok map => .ok (map, buffer.2)

def setBitmapBit (loader : Loader) (bitNumber : Nat) : Loader :=
  { loader with
    bitmap := Function.update loader.bitmap (bitNumber / 8)
      (UInt8.ofNat ((loader.bitmap (bitNumber / 8)).toNat ||| (1 <<< (bitNumber % 8))))
    marked := bitNumber :: loader.marked }

def unsetBitmapBit (loader : Loader) (bitNumber : Nat) : Loader :=
  { loader with
    bitmap := Function.update loader.bitmap (bitNumber / 8)
      (UInt8.ofNat ((loader.bitmap (bitNumber / 8)).toNat &&&
        ((254 <<< (bitNumber % 8)) ||| ((1 <<< (bitNumber % 8)) - 1)))) }

def getBitmapBit (loader : Loader) (bitNumber : Nat) : Nat :=
  ((loader.bitmap (bitNumber / 8)).toNat >>> (bitNumber % 8)) &&& 1

def countUsed (loader : Loader) : Loader :=
  { loader with memoryPhysicalUsedFrames := word (loader.memoryPhysicalUsedFrames + 1) }

/-! ### Page tables -/

def clearTable (loader : Loader) (frame : Nat) : Loader :=
  { loader with ram := Function.update loader.ram frame (fun _ => PageTableEntry.zero) }

def storeEntry (loader : Loader) (table : Nat) (index : Fin 512) (value : PageTableEntry) :
    Loader :=
  { loader with
    ram := Function.update loader.ram table (Function.update (loader.ram table) index value) }

def withTable (loader : Loader) (table : Nat) (index : Fin 512) (frame : Nat) : Loader :=
  let cleared := loader.clearTable frame
  let stored := cleared.storeEntry table index (Vmm.tableEntry (cleared.ram table index) frame)
  (stored.setBitmapBit frame).countUsed

def walkAndCrateNextTable (loader : Loader) (firmware : Firmware) (table : Nat)
    (index : Fin 512) : Except Halt (Nat × Loader) :=
  if (loader.ram table index).present = false then do
    let answer ← loader.allocatePages firmware 1 "Unable to allocate page for a page table!"
    .ok (answer.1, answer.2.withTable table index answer.1)
  else .ok ((loader.ram table index).physicalAddress, loader)

/-- A huge page is entered in the directory, and the walk goes on below it. -/
def mapVaddrToPaddr (loader : Loader) (firmware : Firmware) (vaddr paddr flags : Nat) :
    Except Halt Loader := do
  let pdpt ← loader.walkAndCrateNextTable firmware loader.pml4 (Vmm.pml4Index vaddr)
  let pd ← pdpt.2.walkAndCrateNextTable firmware pdpt.1 (Vmm.pdptIndex vaddr)
  let entered :=
    if Vmm.flagBit flags 4 then
      pd.2.storeEntry pd.1 (Vmm.pdIndex vaddr)
        (Vmm.hugeLeaf (pd.2.ram pd.1 (Vmm.pdIndex vaddr)) paddr flags)
    else pd.2
  let pt ← entered.walkAndCrateNextTable firmware pd.1 (Vmm.pdIndex vaddr)
  .ok (pt.2.storeEntry pt.1 (Vmm.ptIndex vaddr)
    (Vmm.smallLeaf (pt.2.ram pt.1 (Vmm.ptIndex vaddr)) paddr flags))

end Loader

/-! ### The kernel image -/

structure ProgramHeader where
  pType : Nat
  pFlags : Nat
  pOffset : Nat
  pVaddr : Nat
  pFilesz : Nat
  pMemsz : Nat
  deriving DecidableEq, Repr

def programHeader (file : Nat → UInt8) (offset : Nat) : ProgramHeader :=
  { pType := littleEndian file offset 4
    pFlags := littleEndian file (offset + 4) 4
    pOffset := littleEndian file (offset + 8) 8
    pVaddr := littleEndian file (offset + 16) 8
    pFilesz := littleEndian file (offset + 32) 8
    pMemsz := littleEndian file (offset + 40) 8 }

def programHeaders (file : Nat → UInt8) : List ProgramHeader :=
  (List.range (littleEndian file 56 2)).map
    (fun phindex => programHeader file (littleEndian file 32 8 + 56 * phindex))

/-- `PT_GLOBAL | write_flag | nx_flag`. -/
def ProgramHeader.pageFlags (header : ProgramHeader) : Nat :=
  ptGlobal ||| (header.pFlags >>> 1) % 2 ||| (if header.pFlags % 2 = 0 then 1 <<< 6 else 0)

namespace Loader

def copyMem (loader : Loader) (destination : Nat) (source : Nat → UInt8) (size : Nat) : Loader :=
  { loader with
    bytes := fun address =>
      if destination ≤ address ∧ address < destination + size then source (address - destination)
      else loader.bytes address }

def setMem (loader : Loader) (destination size : Nat) (value : UInt8) : Loader :=
  { loader with
    bytes := fun address =>
      if destination ≤ address ∧ address < destination + size then value
      else loader.bytes address }

def sizeToCopy (header : ProgramHeader) (consumed : Nat) : Nat :=
  if 4096 ≤ wordSub header.pFilesz consumed then 4096 else wordSub header.pFilesz consumed

def fillFrame (loader : Loader) (file : Nat → UInt8) (header : ProgramHeader)
    (frame consumed : Nat) : Loader :=
  let copied := loader.copyMem (frame * 4096)
    (fun offset => file (header.pOffset + consumed + offset)) (sizeToCopy header consumed)
  if sizeToCopy header consumed < 4096 then
    copied.setMem (frame * 4096 + sizeToCopy header consumed)
      (4096 - sizeToCopy header consumed) 0
  else copied

/-- `segment_vaddr` takes at most 2^52 values, so a loop that runs longer than
this never ends. -/
def segmentRounds : Nat := 2 ^ 52 + 1

def loadPage (firmware : Firmware) (file : Nat → UInt8) (header : ProgramHeader)
    (segmentVaddr consumed : Nat) (loader : Loader) : Except Halt Loader := do
  let answer ← loader.allocatePages firmware 1 "Unable to allocate page for kernel!"
  let filled := answer.2.fillFrame file header answer.1 consumed
  let mapped ← filled.mapVaddrToPaddr firmware segmentVaddr (answer.1 * 4096) header.pageFlags
  let noted := (mapped.setBitmapBit answer.1).countUsed
  .ok { noted with segmentFrames := answer.1 :: noted.segmentFrames }

def loadSegment (firmware : Firmware) (file : Nat → UInt8) (header : ProgramHeader) :
    Nat → Nat → Nat → Loader → Except Halt Loader
  | 0, _, _, _ => .error .endless
  | rounds + 1, segmentVaddr, consumed, loader =>
    if segmentVaddr < word (header.pVaddr + header.pMemsz) then do
      let loaded ← loadPage firmware file header segmentVaddr consumed loader
      loadSegment firmware file header rounds (word (segmentVaddr + 0x1000))
        (consumed + sizeToCopy header consumed) loaded
    else .ok loader

/-- The program header loop: only PT_LOAD headers are loaded. -/
def loadSegments (firmware : Firmware) (file : Nat → UInt8) :
    List ProgramHeader → Loader → Except Halt Loader
  | [], loader => .ok loader
  | header :: rest, loader =>
    if header.pType ≠ 1 then loadSegments firmware file rest loader
    else do
      let loaded ← loadSegment firmware file header segmentRounds header.pVaddr 0 loader
      loadSegments firmware file rest loaded

end Loader

/-! ### The memory map -/

structure MemoryTotals where
  maxMemoryAddress : Nat
  physicalMemoryFrameCount : Nat
  physicalMemoryUsedFrameCount : Nat
  deriving DecidableEq, Repr

def MemoryDescriptor.endAddress (descriptor : MemoryDescriptor) : Nat :=
  word (descriptor.physicalStart + 4096 * descriptor.numberOfPages)

def MemoryTotals.add (totals : MemoryTotals) (descriptor : MemoryDescriptor) : MemoryTotals :=
  if descriptor.type.systemRam = false then totals
  else
    let counted := { totals with
      physicalMemoryFrameCount :=
        word (totals.physicalMemoryFrameCount + descriptor.numberOfPages) }
    if descriptor.type.usable = false then
      { counted with
        physicalMemoryUsedFrameCount :=
          word (counted.physicalMemoryUsedFrameCount + descriptor.numberOfPages) }
    else
      { counted with
        maxMemoryAddress :=
          if descriptor.endAddress > counted.maxMemoryAddress then descriptor.endAddress
          else counted.maxMemoryAddress }

def memoryTotals (map : List MemoryDescriptor) : MemoryTotals :=
  map.foldl MemoryTotals.add
    { maxMemoryAddress := 0, physicalMemoryFrameCount := 0, physicalMemoryUsedFrameCount := 0 }

def MemoryTotals.bitmapSizeBytes (totals : MemoryTotals) : Nat :=
  (word (totals.maxMemoryAddress + 4095) / 4096 + 7) / 8

namespace Loader

/-- `while (bit_to_change < higher_bit) unset_bitmap_bit(bitmap, bit_to_change++)`. -/
def unsetBits (loader : Loader) (bitToChange : Nat) : Nat → Loader
  | 0 => loader
  | remaining + 1 => (loader.unsetBitmapBit bitToChange).unsetBits (bitToChange + 1) remaining

def unsetUsable (loader : Loader) : List MemoryDescriptor → Loader
  | [] => loader
  | descriptor :: rest =>
    if descriptor.type.usable = false then loader.unsetUsable rest
    else
      let bitToChange := word (descriptor.physicalStart + 4095) / 4096
      (loader.unsetBits bitToChange (descriptor.endAddress / 4096 - bitToChange)).unsetUsable rest

def setBits (loader : Loader) (bitToChange : Nat) : Nat → Loader
  | 0 => loader
  | remaining + 1 =>
    ((loader.setBitmapBit bitToChange).countUsed).setBits (bitToChange + 1) remaining

def mapRange (firmware : Firmware) (base : Nat) : Nat → Nat → Loader → Except Halt Loader
  | 0, _, loader => .ok loader
  | pages + 1, address, loader => do
    let mapped ← loader.mapVaddrToPaddr firmware (word (address + base)) address
      (ptGlobal ||| ptWriteable)
    mapRange firmware base pages (address + 0x1000) mapped

/-- The direct map of system memory.  Both bounds are page aligned, so the loop
variable meets the upper one and does not wrap. -/
def mapDirect (firmware : Firmware) : List MemoryDescriptor → Loader → Except Halt Loader
  | [], loader => .ok loader
  | descriptor :: rest, loader =>
    if descriptor.type.directMapped = false then mapDirect firmware rest loader
    else do
      let low := word (descriptor.physicalStart + 4095) / 4096
      let mapped ← mapRange firmware directMapBase (descriptor.endAddress / 4096 - low) (low * 4096)
        loader
      mapDirect firmware rest mapped

/-- The stack loop: the virtual address is not advanced. -/
def mapStack (firmware : Firmware) : Nat → Loader → Except Halt Loader
  | 0, loader => .ok loader
  | pages + 1, loader => do
    let answer ← loader.allocatePages firmware 1 "Cannot allocate page for kernel's stack!"
    let mapped ← answer.2.mapVaddrToPaddr firmware (kernelStackBase - 1) (answer.1 * 4096)
      (ptGlobal ||| ptWriteable)
    mapStack firmware pages { mapped with stackFrames := answer.1 :: mapped.stackFrames }

def mapGdt (firmware : Firmware) (loader : Loader) : Except Halt Loader :=
  let lower := firmware.gdt64 / 4096
  mapRange firmware 0 (word (firmware.gdt64Ptr + 0x1000) / 4096 - lower) (lower * 4096) loader

/-! ### The loader -/

/-- The bitmap: all ones, then a zero for every usable frame.  The answer is its
first frame and the totals of the first memory map. -/
def buildBitmap (loader : Loader) (firmware : Firmware) :
    Except Halt ((Nat × MemoryTotals) × Loader) := do
  let first ← loader.getMemoryMap firmware 0
  let totals := memoryTotals first.1
  let bitmap ← first.2.allocatePages firmware ((totals.bitmapSizeBytes + 4095) / 4096)
    "Cannot allocate pages for memory bitmap!"
  let full : Loader := { bitmap.2 with
    bitmap := fun index =>
      if index < totals.bitmapSizeBytes then 255 else bitmap.2.bitmap index }
  let second ← full.getMemoryMap firmware 1
  .ok ((bitmap.1, totals), second.2.unsetUsable second.1)

/-- The sentinel: frame 0 stands for NULL in the kernel. -/
def reserveFrameZero (loader : Loader) : Loader :=
  if loader.getBitmapBit 0 = 0 then (loader.setBitmapBit 0).countUsed else loader

/-- The boot information page, the bitmap's own frames, frame 0 and the root table. -/
def reserveBootFrames (loader : Loader) (firmware : Firmware) (bitmapFrame : Nat)
    (totals : MemoryTotals) : Except Halt Loader := do
  let info ← loader.allocatePages firmware 1 "Could not allocate a page for the boot struct!"
  let filled : Loader := { info.2 with
    bootInfo := info.1
    memoryBitmapAddress := bitmapFrame * 4096
    memoryBitmapSize := totals.bitmapSizeBytes
    memoryPhysicalTotalFrames := totals.physicalMemoryFrameCount
    memoryPhysicalUsedFrames := totals.physicalMemoryUsedFrameCount }
  let bitmapNoted := filled.setBits bitmapFrame ((totals.bitmapSizeBytes + 4095) / 4096)
  let infoNoted := (bitmapNoted.reserveFrameZero.setBitmapBit info.1).countUsed
  let root ← infoNoted.allocatePages firmware 1 "Cannot allocate page for PML4 table!"
  let cleared : Loader := { root.2.clearTable root.1 with pml4 := root.1 }
  .ok (cleared.setBitmapBit root.1).countUsed

def readKernel (loader : Loader) (firmware : Firmware) : Except Halt Loader := do
  checkEfiError (firmware.status .locateGop) "Unable to get the GOP!"
  checkEfiError (firmware.status .loadedImage) "Unable to get loaded image protocol!"
  checkEfiError (firmware.status .fileSystem) "Unable to get file system protocol!"
  checkEfiError (firmware.status .openVolume) "Unable to get root directory file protocol!"
  checkEfiError (firmware.status .openKernel) "Unable to find or open kernel file!"
  checkEfiError (firmware.status .allocatePool) "Unable to allocate memory for file info!"
  checkEfiError (firmware.status .fileInfo) "Unable to execute getinfo for the kernel file!"
  let buffer ← loader.allocatePages firmware ((firmware.fileSize + 4095) / 4096)
    "Unable to allocate memory to store kernel elf file!"
  checkEfiError (firmware.status .readKernel) "Unable to read kernel elf file!"
  if littleEndian firmware.file 0 6 ≠ 0x0102464c457f then .error .invalidElf
  else .ok buffer.2

def mapKernel (loader : Loader) (firmware : Firmware) : Except Halt Loader := do
  let loaded ← loadSegments firmware firmware.file (programHeaders firmware.file) loader
  let third ← loaded.getMemoryMap firmware 2
  let direct ← mapDirect firmware third.1 third.2
  let stacked ← mapStack firmware kernelStackPageCount direct
  mapGdt firmware stacked

def efiMain (loader : Loader) (firmware : Firmware) : Except Halt Loader := do
  let built ← loader.buildBitmap firmware
  let reserved ← built.2.reserveBootFrames firmware built.1.1 built.1.2
  let read ← reserved.readKernel firmware
  let mapped ← read.mapKernel firmware
  let last ← mapped.getMemoryMap firmware 3
  checkEfiError (firmware.status .exitBootServices) "ExitBootServices failed!"
  .ok last.2

end Loader

end Fesos
