/-
Transfers of the block layer, drivers/block/lbd.c.

`lbd_read` and `lbd_write` check the request, pin the buffer and call the driver, for
a buffer at an odd address by way of a bounce buffer.  What they call is given by an
`LbdServices`; the calls of the driver are kept in the order they were made, the
latest first.  A request passes exactly when the wrapped sum of its address and count
is below the number of sectors.
-/

import Fesos.Dma
import Fesos.Lbd
import Fesos.VmmPin

set_option autoImplicit false

namespace Fesos

structure LbdDeviceInfo where
  totalSectors : Nat
  logicalSectorSizeBytes : Nat
  physicalSectorSizeBytes : Nat
  logicalAlignmentOffset : Nat
  maxSectorsPerTransfer : Nat
  flags : Nat
  deriving DecidableEq, Repr

/-- `LBD_FLAG_W` and `LBD_FLAG_F`. -/
def lbdFlagW : Nat := 0x1
def lbdFlagF : Nat := 0x2

inductive DriverCall where
  | read (drive lba count buffer : Nat)
  | write (drive lba count buffer : Nat)
  | flush (drive : Nat)
  deriving DecidableEq, Repr

/-- What the block layer calls: `vmm_pin_pages`, the scattered DMA allocations, `memcpy` and
the driver. -/
structure LbdServices (Memory : Type) where
  pin : Nat → Nat → Bool → Memory → Except Fault (Int × Memory)
  allocate : Nat → Memory → Except Fault (DmaScatterBlock × Memory)
  free : DmaScatterBlock → Memory → Except Fault Memory
  memcpy : Nat → Nat → Nat → Memory → Except Fault Memory
  driver : DriverCall → Memory → Int × Memory

structure LbdLayer (Memory : Type) where
  memory : Memory
  lbd : Lbd
  deviceInfo : Nat → LbdDeviceInfo
  calls : List DriverCall

namespace LbdLayer

variable {Memory : Type}

def withMemory (layer : LbdLayer Memory) (memory : Memory) : LbdLayer Memory :=
  { layer with memory := memory }

def callDriver (services : LbdServices Memory) (call : DriverCall) (layer : LbdLayer Memory) :
    Int × LbdLayer Memory :=
  let answer := services.driver call layer.memory
  (answer.1, { layer with memory := answer.2, calls := call :: layer.calls })

/-- `count * logical_sector_size_bytes`. -/
def transferBytes (info : LbdDeviceInfo) (count : Nat) : Nat :=
  word (count * info.logicalSectorSizeBytes)

def bouncePages (info : LbdDeviceInfo) (count : Nat) : Nat :=
  word (transferBytes info count + 0xFFF) / 0x1000

def lbdRead (services : LbdServices Memory) (driveNo : UInt8) (lba count buffer : Nat)
    (layer : LbdLayer Memory) : Except Fault (Int × LbdLayer Memory) :=
  let logicalDrive := layer.lbd.lbdDrives driveNo
  let info := layer.deviceInfo logicalDrive
  if logicalDrive = 0 then .ok (-EINVAL, layer)
  else if count > info.maxSectorsPerTransfer then .ok (-EINVAL, layer)
  else if word (lba + count) ≥ info.totalSectors then .ok (-EINVAL, layer)
  else do
    let pinned ← services.pin buffer (transferBytes info count) true layer.memory
    let layer := layer.withMemory pinned.2
    if pinned.1 ≠ 0 then pure (-EINVAL, layer)
    else if buffer % 2 = 1 then do
      let scatterBlock ← services.allocate (bouncePages info count) layer.memory
      let layer := layer.withMemory scatterBlock.2
      if scatterBlock.1.virtualAddr = 0 then pure (-ENOMEM, layer)
      else do
        let readErrno := layer.callDriver services
          (.read logicalDrive lba count scatterBlock.1.virtualAddr)
        let layer := readErrno.2
        if readErrno.1 ≠ 0 then do
          let freed ← services.free scatterBlock.1 layer.memory
          pure (readErrno.1, layer.withMemory freed)
        else do
          let copied ← services.memcpy buffer scatterBlock.1.virtualAddr
            (transferBytes info count) layer.memory
          let freed ← services.free scatterBlock.1 copied
          pure (0, layer.withMemory freed)
    else pure (layer.callDriver services (.read logicalDrive lba count buffer))

def lbdWrite (services : LbdServices Memory) (driveNo : UInt8) (lba count buffer : Nat)
    (layer : LbdLayer Memory) : Except Fault (Int × LbdLayer Memory) :=
  let logicalDrive := layer.lbd.lbdDrives driveNo
  let info := layer.deviceInfo logicalDrive
  if logicalDrive = 0 then .ok (-EINVAL, layer)
  else if count > info.maxSectorsPerTransfer then .ok (-EINVAL, layer)
  else if word (lba + count) ≥ info.totalSectors then .ok (-EINVAL, layer)
  else if info.flags &&& lbdFlagW = 0 then .ok (-EPERM, layer)
  else do
    let pinned ← services.pin buffer (transferBytes info count) false layer.memory
    let layer := layer.withMemory pinned.2
    if pinned.1 ≠ 0 then pure (-EINVAL, layer)
    else if buffer % 2 = 1 then do
      let scatterBlock ← services.allocate (bouncePages info count) layer.memory
      let layer := layer.withMemory scatterBlock.2
      if scatterBlock.1.virtualAddr = 0 then pure (-ENOMEM, layer)
      else do
        let copied ← services.memcpy scatterBlock.1.virtualAddr buffer
          (transferBytes info count) layer.memory
        let layer := layer.withMemory copied
        let writeErrno := layer.callDriver services
          (.write logicalDrive lba count scatterBlock.1.virtualAddr)
        let layer := writeErrno.2
        let freed ← services.free scatterBlock.1 layer.memory
        pure (writeErrno.1, layer.withMemory freed)
    else pure (layer.callDriver services (.write logicalDrive lba count buffer))

def lbdFlush (services : LbdServices Memory) (driveNo : UInt8) (layer : LbdLayer Memory) :
    Int × LbdLayer Memory :=
  let logicalDrive := layer.lbd.lbdDrives driveNo
  if logicalDrive = 0 then (-EINVAL, layer)
  else if (layer.deviceInfo logicalDrive).flags &&& lbdFlagF = 0 then (-EPERM, layer)
  else layer.callDriver services (.flush logicalDrive)

/-- The kernel's own services, for a driver and a `memcpy`. -/
def kernelServices (memcpy : Nat → Nat → Nat → Kmalloc Vma → Except Fault (Kmalloc Vma))
    (driver : DriverCall → Kmalloc Vma → Int × Kmalloc Vma) : LbdServices (Kmalloc Vma) where
  pin := fun vAddr count writeAccess heap => do
    let pinned ← Vma.vmmPinPages vAddr count writeAccess heap.regions
    pure (pinned.1, { heap with regions := pinned.2 })
  allocate := Kmalloc.kallocateScatterDma
  free := Kmalloc.kfreeScatterDma
  memcpy := memcpy
  driver := driver

/-! ### Which requests pass -/

def PassesRead (services : LbdServices Memory) (driveNo : UInt8) (lba count buffer : Nat)
    (layer : LbdLayer Memory) : Prop :=
  ∃ status after, lbdRead services driveNo lba count buffer layer = .ok (status, after) ∧
    after.calls = .read (layer.lbd.lbdDrives driveNo) lba count buffer :: layer.calls

def PassesWrite (services : LbdServices Memory) (driveNo : UInt8) (lba count buffer : Nat)
    (layer : LbdLayer Memory) : Prop :=
  ∃ status after, lbdWrite services driveNo lba count buffer layer = .ok (status, after) ∧
    after.calls = .write (layer.lbd.lbdDrives driveNo) lba count buffer :: layer.calls

/-- The request does not end with the last sector, and its sum does not wrap to a sector of
the drive. -/
def SumChecks (info : LbdDeviceInfo) (lba count : Nat) : Prop :=
  lba + count ≠ info.totalSectors ∧
    ¬ (2 ^ 64 ≤ lba + count ∧ lba + count - 2 ^ 64 < info.totalSectors)

instance decidableSumChecks (info : LbdDeviceInfo) (lba count : Nat) :
    Decidable (SumChecks info lba count) :=
  inferInstanceAs (Decidable (_ ∧ ¬ (_ ∧ _)))

section Pass

variable {services : LbdServices Memory} {layer : LbdLayer Memory} {driveNo : UInt8}
  {lba count buffer : Nat} {pinned : Memory}

/-- The wrapped sum is below the bound exactly when the sum is at most the bound, unless it
equals the bound or wraps to a smaller number. -/
theorem sumChecks_iff {info : LbdDeviceInfo} (bounded : info.totalSectors < 2 ^ 64)
    (lbaBounded : lba < 2 ^ 64) (countBounded : count < 2 ^ 64) :
    (word (lba + count) < info.totalSectors ↔ lba + count ≤ info.totalSectors) ↔
      SumChecks info lba count := by
  unfold SumChecks word
  omega

theorem calls_ne (call : DriverCall) (calls : List DriverCall) : calls ≠ call :: calls :=
  fun same => Nat.succ_ne_self _ (congrArg List.length same).symm

section

variable (registered : layer.lbd.lbdDrives driveNo ≠ 0)
  (short : count ≤ (layer.deviceInfo (layer.lbd.lbdDrives driveNo)).maxSectorsPerTransfer)

include registered short

theorem passesRead_iff
    (even : buffer % 2 = 0)
    (valid : services.pin buffer
      (transferBytes (layer.deviceInfo (layer.lbd.lbdDrives driveNo)) count) true layer.memory =
        .ok (0, pinned)) :
    layer.PassesRead services driveNo lba count buffer ↔
      word (lba + count) < (layer.deviceInfo (layer.lbd.lbdDrives driveNo)).totalSectors := by
  unfold PassesRead lbdRead
  dsimp only
  rw [if_neg registered, if_neg (Nat.not_lt.mpr short)]
  by_cases refused : word (lba + count) ≥
      (layer.deviceInfo (layer.lbd.lbdDrives driveNo)).totalSectors
  · rw [if_pos refused]
    constructor
    · rintro ⟨status, after, returned, called⟩
      cases returned
      exact absurd called (calls_ne _ _)
    · intro passes
      omega
  · rw [if_neg refused, valid, ok_bind]
    constructor
    · intro _
      omega
    · intro _
      rw [if_neg (fun failed => failed rfl), if_neg (by omega)]
      exact ⟨_, _, rfl, rfl⟩

theorem passesWrite_iff
    (writable : (layer.deviceInfo (layer.lbd.lbdDrives driveNo)).flags &&& lbdFlagW ≠ 0)
    (even : buffer % 2 = 0)
    (valid : services.pin buffer
      (transferBytes (layer.deviceInfo (layer.lbd.lbdDrives driveNo)) count) false layer.memory =
        .ok (0, pinned)) :
    layer.PassesWrite services driveNo lba count buffer ↔
      word (lba + count) < (layer.deviceInfo (layer.lbd.lbdDrives driveNo)).totalSectors := by
  unfold PassesWrite lbdWrite
  dsimp only
  rw [if_neg registered, if_neg (Nat.not_lt.mpr short)]
  by_cases refused : word (lba + count) ≥
      (layer.deviceInfo (layer.lbd.lbdDrives driveNo)).totalSectors
  · rw [if_pos refused]
    constructor
    · rintro ⟨status, after, returned, called⟩
      cases returned
      exact absurd called (calls_ne _ _)
    · intro passes
      omega
  · rw [if_neg refused, if_neg writable, valid, ok_bind]
    constructor
    · intro _
      omega
    · intro _
      rw [if_neg (fun failed => failed rfl), if_neg (by omega)]
      exact ⟨_, _, rfl, rfl⟩

end

end Pass

/-- Reads and writes of sectors that exist are passed on, and no others, exactly if the
request neither ends with the last sector nor wraps. -/
theorem lbd_passes_existing_iff (services : LbdServices Memory) (layer : LbdLayer Memory)
    (driveNo : UInt8) (registered : layer.lbd.lbdDrives driveNo ≠ 0)
    (sectors : (layer.deviceInfo (layer.lbd.lbdDrives driveNo)).totalSectors < 2 ^ 64)
    (lba count buffer : Nat) (lbaBounded : lba < 2 ^ 64) (countBounded : count < 2 ^ 64)
    (short : count ≤ (layer.deviceInfo (layer.lbd.lbdDrives driveNo)).maxSectorsPerTransfer)
    (even : buffer % 2 = 0) :
    ((∃ pinned, services.pin buffer
        (transferBytes (layer.deviceInfo (layer.lbd.lbdDrives driveNo)) count) true layer.memory =
          .ok (0, pinned)) →
      ((layer.PassesRead services driveNo lba count buffer ↔
          lba + count ≤ (layer.deviceInfo (layer.lbd.lbdDrives driveNo)).totalSectors) ↔
        SumChecks (layer.deviceInfo (layer.lbd.lbdDrives driveNo)) lba count)) ∧
    ((∃ pinned, services.pin buffer
        (transferBytes (layer.deviceInfo (layer.lbd.lbdDrives driveNo)) count) false layer.memory =
          .ok (0, pinned)) →
      (layer.deviceInfo (layer.lbd.lbdDrives driveNo)).flags &&& lbdFlagW ≠ 0 →
      ((layer.PassesWrite services driveNo lba count buffer ↔
          lba + count ≤ (layer.deviceInfo (layer.lbd.lbdDrives driveNo)).totalSectors) ↔
        SumChecks (layer.deviceInfo (layer.lbd.lbdDrives driveNo)) lba count)) := by
  constructor
  · rintro ⟨pinned, valid⟩
    rw [passesRead_iff registered short even valid]
    exact sumChecks_iff sectors lbaBounded countBounded
  · rintro ⟨pinned, valid⟩ writable
    rw [passesWrite_iff registered short writable even valid]
    exact sumChecks_iff sectors lbaBounded countBounded

def oneDrive : LbdLayer (Kmalloc Vma) :=
  { memory := Kmalloc.overRegions (Vma.regularHeap 8192 Vma.firstPageTables)
    lbd := { lbdDrives := fun _ => 0x5000, nextDriveNum := 1, driveNo := fun _ => 0 }
    deviceInfo := fun _ => ⟨1000, 512, 512, 0, 128, lbdFlagW⟩
    calls := [] }

def idleDriver : LbdServices (Kmalloc Vma) :=
  kernelServices (fun _ _ _ heap => .ok heap) (fun _ heap => (0, heap))

theorem oneDrive_pins {count : Nat} (positive : count ≠ 0) (inPage : count ≤ 8)
    (writeAccess : Bool) :
    idleDriver.pin kernelHeapStart (transferBytes (oneDrive.deviceInfo 0x5000) count) writeAccess
      oneDrive.memory = .ok (0, oneDrive.memory) := by
  have bytes : transferBytes (oneDrive.deviceInfo 0x5000) count = count * 512 := by
    unfold transferBytes
    apply word_of_lt
    change count * 512 < _
    omega
  have start : kernelHeapStart % 4096 = 0 := by decide
  have high : kernelHeapStart + 4096 < 2 ^ 64 - 4096 := by decide
  have low : 4096 ≤ kernelHeapStart := by decide
  have passes : Vma.vmmPinPages kernelHeapStart (count * 512) writeAccess
      (Vma.regularHeap 8192 Vma.firstPageTables) =
        .ok (0, Vma.regularHeap 8192 Vma.firstPageTables) := by
    apply Vma.vmmPinPages_passes treeFuel Vma.firstPageTables_wellFormed
    · omega
    · omega
    · omega
    · rw [Vma.endPage_eq (by omega)]
      unfold Vma.startPage
      omega
    · intro page checked
      have isFirst : page = kernelHeapStart := by
        have aligned := checked.1
        have lower := checked.2.1
        have upper := checked.2.2
        rw [Vma.endPage_eq (by omega)] at upper
        unfold Vma.startPage at lower upper
        omega
      obtain ⟨size, entry, mapped, writeable⟩ := Vma.firstPage_pinned
      rw [isFirst]
      exact ⟨size, entry, mapped, fun _ => writeable rfl⟩
  rw [bytes]
  change (Vma.vmmPinPages _ _ _ (Vma.regularHeap 8192 Vma.firstPageTables) >>= _) = _
  rw [passes]
  rfl

/-- Eight sectors in the middle of the drive are read and written. -/
theorem lbd_passes_existing_iff_middle :
    oneDrive.PassesRead idleDriver 0 500 8 kernelHeapStart ∧
      oneDrive.PassesWrite idleDriver 0 500 8 kernelHeapStart := by
  have both := lbd_passes_existing_iff idleDriver oneDrive 0 (by decide) (by decide) 500 8
    kernelHeapStart (by decide) (by decide) (by decide) (by decide)
  constructor
  · exact ((both.1 ⟨_, oneDrive_pins (by decide) (by decide) true⟩).mpr (by decide)).mpr (by decide)
  · exact ((both.2 ⟨_, oneDrive_pins (by decide) (by decide) false⟩ (by decide)).mpr
      (by decide)).mpr (by decide)

/-- The last sector of the drive is refused, and a request whose sum wraps is passed on. -/
theorem lbd_misjudges_requests :
    (999 + 1 ≤ (oneDrive.deviceInfo 0x5000).totalSectors ∧
      ¬ oneDrive.PassesRead idleDriver 0 999 1 kernelHeapStart) ∧
    ¬ 2 ^ 64 - 1 + 1 ≤ (oneDrive.deviceInfo 0x5000).totalSectors ∧
      oneDrive.PassesWrite idleDriver 0 (2 ^ 64 - 1) 1 kernelHeapStart := by
  have refused : ¬ oneDrive.PassesRead idleDriver 0 999 1 kernelHeapStart := by
    intro passes
    have below := (passesRead_iff (by decide) (by decide) (by decide)
      (oneDrive_pins (by decide) (by decide) true)).mp passes
    exact absurd below (by decide)
  have passed : oneDrive.PassesWrite idleDriver 0 (2 ^ 64 - 1) 1 kernelHeapStart :=
    (passesWrite_iff (by decide) (by decide) (by decide) (by decide)
      (oneDrive_pins (by decide) (by decide) false)).mpr (by decide)
  exact ⟨⟨by decide, refused⟩, by decide, passed⟩

end LbdLayer

end Fesos
