/-
The room in the command table.

A page holds a command table with 248 PRDT entries, and an entry has 22 bits for its
length.  The transfer loop checks neither.  Both follow from the 128 sectors that
`ahci_init_port` allows and from the sector size the drive reports, as long as the
transfer is short enough; a buffer may start two bytes before the end of a page and
stand on pages no two of which follow one another.
-/

import Fesos.AhciInit
import Fesos.AhciPrdt

set_option autoImplicit false

namespace Fesos

open Library

/-! ### The drive that is registered -/

section Registered

variable (hardware : PortHardware) (memory : PortMemory)

def RegistersOwn (run : PortRun) : Prop :=
  ∀ drive, run.registered = some drive →
    drive = (hardware.idData.deviceInfo, hardware.idData.lba48Support)

theorem registersOwn_nothing {run : PortRun} (nothing : run.registered = none) :
    RegistersOwn hardware run := by
  intro drive registered
  rw [nothing] at registered
  cases registered

theorem identifyDevice_own : RegistersOwn hardware (identifyDevice hardware memory) := by
  unfold identifyDevice
  by_cases control : memory.controlPage = true
  · rw [if_pos control]
    cases issueCommand hardware.identify with
    | none => exact registersOwn_nothing hardware rfl
    | some outcome =>
      cases outcome with
      | rejected => exact registersOwn_nothing hardware rfl
      | timedOut => exact registersOwn_nothing hardware rfl
      | completed =>
        intro drive registered
        change (registerDrive hardware memory).registered = some drive at registered
        unfold registerDrive at registered
        by_cases granted : memory.drive = true
        · rw [if_pos granted] at registered
          exact (Option.some.inj registered).symm
        · rw [if_neg granted] at registered
          cases registered
  · rw [if_neg control]
    exact registersOwn_nothing hardware rfl

theorem allocateTables_own (remaining index : Nat) :
    RegistersOwn hardware (allocateTables hardware memory remaining index) := by
  induction remaining generalizing index with
  | zero => exact identifyDevice_own hardware memory
  | succ remaining ih =>
    rw [allocateTables]
    by_cases table : memory.commandTable index = true
    · rw [if_pos table]
      by_cases data : memory.driverData = true
      · rw [if_pos data]
        exact ih (index + 1)
      · rw [if_neg data]
        exact registersOwn_nothing hardware rfl
    · rw [if_neg table]
      exact registersOwn_nothing hardware rfl

theorem awaited_own {answers : List Nat} {bit : Nat} {wanted : Bool} {events : List PortEvent}
    {leave : List PortEvent} {next : PortRun} (own : RegistersOwn hardware next) :
    RegistersOwn hardware (PortRun.after
      (match awaitCmd bit wanted answers with
      | none => PortRun.wait
      | some false => PortRun.exit leave .timeout
      | some true => next) events) := by
  cases awaitCmd bit wanted answers with
  | none => exact registersOwn_nothing hardware rfl
  | some came =>
    cases came with
    | false => exact registersOwn_nothing hardware rfl
    | true => exact own

theorem ahciInitPort_own : RegistersOwn hardware (ahciInitPort hardware memory) := by
  apply awaited_own
  apply awaited_own
  change RegistersOwn hardware (enableFis hardware memory)
  apply awaited_own
  unfold checkSignature
  by_cases disk : hardware.sig = 0x00000101
  · rw [if_pos disk]
    apply awaited_own
    exact allocateTables_own hardware memory 32 0
  · rw [if_neg disk]
    exact registersOwn_nothing hardware rfl

end Registered

/-! ### The buffer handed to the driver -/

/-- `kallocate_scatter_dma` hands out whole pages. -/
structure LbdServices.PageBlocks {Memory : Type} (services : LbdServices Memory) : Prop where
  aligned : ∀ pages memory block after, services.allocate pages memory = .ok (block, after) →
    block.virtualAddr % 4096 = 0
  bounded : ∀ pages memory block after, services.allocate pages memory = .ok (block, after) →
    block.virtualAddr < 2 ^ 64

namespace LbdLayer

section Buffers

variable {Memory : Type} {services : LbdServices Memory} {layer after : LbdLayer Memory}
  {driveNo : UInt8} {lba count buffer driverBuffer : Nat} {status : Int}

def Reads (services : LbdServices Memory) (driveNo : UInt8) (lba count buffer driverBuffer : Nat)
    (layer : LbdLayer Memory) : Prop :=
  ∃ status after, lbdRead services driveNo lba count buffer layer = .ok (status, after) ∧
    after.calls = .read (layer.lbd.lbdDrives driveNo) lba count driverBuffer :: layer.calls

def Writes (services : LbdServices Memory) (driveNo : UInt8) (lba count buffer driverBuffer : Nat)
    (layer : LbdLayer Memory) : Prop :=
  ∃ status after, lbdWrite services driveNo lba count buffer layer = .ok (status, after) ∧
    after.calls = .write (layer.lbd.lbdDrives driveNo) lba count driverBuffer :: layer.calls

def Even (address : Nat) : Prop := address % 2 = 0 ∧ address < 2 ^ 64

theorem lbdRead_calls (blocks : services.PageBlocks) (bounded : buffer < 2 ^ 64)
    (returned : lbdRead services driveNo lba count buffer layer = .ok (status, after)) :
    after.calls = layer.calls ∨ ∃ handed, Even handed ∧
      after.calls = .read (layer.lbd.lbdDrives driveNo) lba count handed :: layer.calls := by
  unfold lbdRead at returned
  dsimp only at returned
  by_cases missing : layer.lbd.lbdDrives driveNo = 0
  · rw [if_pos missing] at returned
    cases returned
    exact Or.inl rfl
  rw [if_neg missing] at returned
  split at returned
  · cases returned
    exact Or.inl rfl
  split at returned
  · cases returned
    exact Or.inl rfl
  obtain ⟨pinned, _, returned⟩ := bind_eq_ok returned
  split at returned
  · cases returned
    exact Or.inl rfl
  by_cases odd : buffer % 2 = 1
  · rw [if_pos odd] at returned
    obtain ⟨block, allocated, returned⟩ := bind_eq_ok returned
    have handed : Even block.1.virtualAddr := by
      have aligned := blocks.aligned _ _ _ _ allocated
      exact ⟨by omega, blocks.bounded _ _ _ _ allocated⟩
    split at returned
    · cases returned
      exact Or.inl rfl
    split at returned
    · obtain ⟨freed, _, returned⟩ := bind_eq_ok returned
      cases returned
      exact Or.inr ⟨_, handed, rfl⟩
    obtain ⟨copied, _, returned⟩ := bind_eq_ok returned
    obtain ⟨freed, _, returned⟩ := bind_eq_ok returned
    cases returned
    exact Or.inr ⟨_, handed, rfl⟩
  · rw [if_neg odd] at returned
    cases returned
    exact Or.inr ⟨buffer, ⟨by omega, bounded⟩, rfl⟩

theorem lbdWrite_calls (blocks : services.PageBlocks) (bounded : buffer < 2 ^ 64)
    (returned : lbdWrite services driveNo lba count buffer layer = .ok (status, after)) :
    after.calls = layer.calls ∨ ∃ handed, Even handed ∧
      after.calls = .write (layer.lbd.lbdDrives driveNo) lba count handed :: layer.calls := by
  unfold lbdWrite at returned
  dsimp only at returned
  by_cases missing : layer.lbd.lbdDrives driveNo = 0
  · rw [if_pos missing] at returned
    cases returned
    exact Or.inl rfl
  rw [if_neg missing] at returned
  split at returned
  · cases returned
    exact Or.inl rfl
  split at returned
  · cases returned
    exact Or.inl rfl
  split at returned
  · cases returned
    exact Or.inl rfl
  obtain ⟨pinned, _, returned⟩ := bind_eq_ok returned
  split at returned
  · cases returned
    exact Or.inl rfl
  by_cases odd : buffer % 2 = 1
  · rw [if_pos odd] at returned
    obtain ⟨block, allocated, returned⟩ := bind_eq_ok returned
    have handed : Even block.1.virtualAddr := by
      have aligned := blocks.aligned _ _ _ _ allocated
      exact ⟨by omega, blocks.bounded _ _ _ _ allocated⟩
    split at returned
    · cases returned
      exact Or.inl rfl
    obtain ⟨copied, _, returned⟩ := bind_eq_ok returned
    obtain ⟨freed, _, returned⟩ := bind_eq_ok returned
    cases returned
    exact Or.inr ⟨_, handed, rfl⟩
  · rw [if_neg odd] at returned
    cases returned
    exact Or.inr ⟨buffer, ⟨by omega, bounded⟩, rfl⟩

theorem Reads.even (reads : layer.Reads services driveNo lba count buffer driverBuffer)
    (blocks : services.PageBlocks) (bounded : buffer < 2 ^ 64) : Even driverBuffer := by
  obtain ⟨status, after, returned, called⟩ := reads
  rcases lbdRead_calls blocks bounded returned with silent | ⟨handed, even, calls⟩
  · exact absurd (silent.symm.trans called) (calls_ne _ _)
  · cases calls.symm.trans called
    exact even

theorem Writes.even (writes : layer.Writes services driveNo lba count buffer driverBuffer)
    (blocks : services.PageBlocks) (bounded : buffer < 2 ^ 64) : Even driverBuffer := by
  obtain ⟨status, after, returned, called⟩ := writes
  rcases lbdWrite_calls blocks bounded returned with silent | ⟨handed, even, calls⟩
  · exact absurd (silent.symm.trans called) (calls_ne _ _)
  · cases calls.symm.trans called
    exact even

end Buffers

end LbdLayer

/-! ### How many entries there are -/

def AhciPort.Roomy (port : AhciPort) : Prop :=
  port.entriesWritten ≤ 248 ∧ ∀ length ∈ port.chunkLengths, length - 1 < 2 ^ 22

/-- The longest transfer that fits from any even address: its first page may give two bytes. -/
def roomyBytes : Nat := 247 * 4096 + 2

section Room

variable {Memory : Type} {lookup : Nat → Memory → Nat × Memory} {frame : Nat → Nat}
  {buffer : Nat} {memory : Memory}

theorem bufferPieces_count_le (frame : Nat → Nat) (buffer bytes : Nat) :
    (bufferPieces frame buffer bytes).length ≤ (buffer % 4096 + bytes + 4095) / 4096 := by
  by_cases empty : bytes = 0
  · rw [empty, bufferPieces_nil]
    exact Nat.zero_le _
  · exact Nat.le_of_eq (bufferPieces_length frame buffer bytes empty)

/-- The entries of a transfer are those of the joined pieces. -/
theorem ahciTransfer_chunks (w : Nat) (command48 command28 : UInt8) (info : LbdDeviceInfo)
    (lba count : Nat) (answers : List Nat) (port : AhciPort)
    (fits : ∀ page, frame page * 4096 + 4096 < 2 ^ 64) (bounded : buffer < 2 ^ 64)
    (translates : Translates lookup frame buffer (LbdLayer.transferBytes info count) memory) :
    (ahciTransfer lookup w command48 command28 info lba count buffer answers port
        memory).2.1.entriesWritten =
          (joinAll (bufferPieces frame buffer (LbdLayer.transferBytes info count))).length ∧
      (ahciTransfer lookup w command48 command28 info lba count buffer answers port
        memory).2.1.chunkLengths =
          (joinAll (bufferPieces frame buffer (LbdLayer.transferBytes info count))).map
            Span.length := by
  have bytesBounded : LbdLayer.transferBytes info count < 2 ^ 64 := word_lt _
  have wrote := prdtLoop_chunks port.cmdtbl.clear.prdtEntry fits bounded bytesBounded translates
  constructor
  · have lengths := congrArg List.length wrote.written
    rw [List.length_map] at lengths
    exact lengths
  · exact wrote.lengths

theorem ahciTransfer_roomy (w : Nat) (command48 command28 : UInt8) {info : LbdDeviceInfo}
    {count : Nat} (lba : Nat) (answers : List Nat) (port : AhciPort)
    (fits : ∀ page, frame page * 4096 + 4096 < 2 ^ 64) (even : LbdLayer.Even buffer)
    (translates : Translates lookup frame buffer (LbdLayer.transferBytes info count) memory)
    (short : LbdLayer.transferBytes info count ≤ roomyBytes) :
    (ahciTransfer lookup w command48 command28 info lba count buffer answers port
      memory).2.1.Roomy := by
  obtain ⟨written, lengths⟩ := ahciTransfer_chunks w command48 command28 info lba count answers
    port fits even.2 translates
  have pieces := bufferPieces_count_le frame buffer (LbdLayer.transferBytes info count)
  have joined := length_joinAll_le
    (bufferPieces frame buffer (LbdLayer.transferBytes info count))
  have total := bufferPieces_sum frame buffer (LbdLayer.transferBytes info count)
  have parity := even.1
  unfold roomyBytes at short
  constructor
  · rw [written]
    omega
  · intro length member
    rw [lengths] at member
    obtain ⟨chunk, inside, same⟩ := List.mem_map.mp member
    have bound := length_of_mem_joinAll inside
    omega

/-- Pages on frames of even numbers do not follow one another. -/
theorem bufferPieces_scattered (scattered : ∀ page, frame page % 2 = 0)
    (vAddr remaining : Nat) : Separated (bufferPieces frame vAddr remaining) := by
  induction vAddr, remaining using pages_induction with
  | none vAddr =>
    rw [bufferPieces_nil]
    exact ⟨nofun, List.isChain_nil⟩
  | step vAddr remaining some ih =>
    rw [bufferPieces_cons frame vAddr some]
    apply ih.cons (bytesThisStep_pos vAddr some)
    intro next isNext
    by_cases last : remaining - bytesThisStep vAddr remaining = 0
    · rw [last, bufferPieces_nil] at isNext
      cases isNext
    rw [bufferPieces_cons frame _ last] at isNext
    cases isNext
    have step : bytesThisStep vAddr remaining = 4096 - vAddr % 4096 := by
      unfold bytesThisStep at last ⊢
      omega
    have onPage : word (vAddr + (4096 - vAddr % 4096)) % 4096 = 0 := by
      unfold word
      omega
    have here := scattered (vAddr / 4096)
    have there := scattered (word (vAddr + (4096 - vAddr % 4096)) / 4096)
    rw [step]
    change frame (vAddr / 4096) * 4096 + vAddr % 4096 + (4096 - vAddr % 4096) ≠
      frame (word (vAddr + (4096 - vAddr % 4096)) / 4096) * 4096 +
        word (vAddr + (4096 - vAddr % 4096)) % 4096
    rw [onPage]
    omega

end Room

/-! ### Requests -/

/-- Whatever the buffer and the memory it stands on, the entries of the request fit. -/
def RequestFits (info : LbdDeviceInfo) (lba count : Nat) : Prop :=
  ∀ (Memory : Type) (services : LbdServices Memory) (layer : LbdLayer Memory) (driveNo : UInt8)
    (buffer driverBuffer : Nat) (lookup : Nat → Memory → Nat × Memory) (frame : Nat → Nat)
    (answers : List Nat) (port : AhciPort) (memory : Memory),
    services.PageBlocks → layer.deviceInfo (layer.lbd.lbdDrives driveNo) = info →
      buffer < 2 ^ 64 → (∀ page, frame page * 4096 + 4096 < 2 ^ 64) →
      Translates lookup frame driverBuffer (LbdLayer.transferBytes info count) memory →
      (layer.Reads services driveNo lba count buffer driverBuffer →
        (ahciRead lookup info lba count driverBuffer answers port memory).2.1.Roomy) ∧
      (layer.Writes services driveNo lba count buffer driverBuffer →
        (ahciWrite lookup info lba count driverBuffer answers port memory).2.1.Roomy)

def pinningServices : LbdServices Unit where
  pin := fun _ _ _ _ => .ok (0, ())
  allocate := fun _ _ => .error .nullDereference
  free := fun _ _ => .ok ()
  memcpy := fun _ _ _ _ => .ok ()
  driver := fun _ _ => (0, ())

def uniformLayer (info : LbdDeviceInfo) : LbdLayer Unit :=
  { memory := ()
    lbd := { lbdDrives := fun _ => 1, nextDriveNum := 1, driveNo := fun _ => 0 }
    deviceInfo := fun _ => info
    calls := [] }

/-- Every page on a frame of its own with an even number. -/
def scatteredFrame (page : Nat) : Nat := 2 * (page % 2 ^ 50)

section Requests

variable {info : LbdDeviceInfo} {lba count : Nat}

theorem uniformLayer_reads (short : count ≤ info.maxSectorsPerTransfer)
    (inside : word (lba + count) < info.totalSectors) :
    (uniformLayer info).Reads pinningServices 0 lba count 4094 4094 := by
  have passes : (uniformLayer info).PassesRead pinningServices 0 lba count 4094 :=
    (LbdLayer.passesRead_iff Nat.one_ne_zero short (by decide) rfl).mpr inside
  exact passes

/-- An admitted request of a drive fits exactly up to a length. -/
theorem requestFits_iff (short : count ≤ info.maxSectorsPerTransfer)
    (inside : word (lba + count) < info.totalSectors) :
    RequestFits info lba count ↔ LbdLayer.transferBytes info count ≤ roomyBytes := by
  constructor
  · intro request
    have frames : ∀ page, scatteredFrame page * 4096 + 4096 < 2 ^ 64 := by
      intro page
      unfold scatteredFrame
      omega
    have translates : Translates
        (fun vAddr (memory : Unit) => (pageTranslation scatteredFrame vAddr, memory))
        scatteredFrame 4094 (LbdLayer.transferBytes info count) () := fun _ _ => rfl
    have blocks : pinningServices.PageBlocks := by
      constructor
      · intro pages memory block after impossible
        cases impossible
      · intro pages memory block after impossible
        cases impossible
    have roomy := (request Unit pinningServices (uniformLayer info) 0 4094 4094 _ scatteredFrame []
      (idlePort true) () blocks rfl (by decide) frames translates).1
        (uniformLayer_reads short inside)
    have written := (ahciTransfer_chunks 0 0x25 0xC8 info lba count [] (idlePort true) frames
      (by decide) translates).1
    have separated : Separated
        (bufferPieces scatteredFrame 4094 (LbdLayer.transferBytes info count)) :=
      bufferPieces_scattered (fun page => Nat.mul_mod_right 2 _) _ _
    have few := roomy.1
    unfold ahciRead at few
    rw [written, joinAll_separated separated] at few
    unfold roomyBytes
    by_cases empty : LbdLayer.transferBytes info count = 0
    · omega
    · rw [bufferPieces_length _ _ _ empty] at few
      omega
  · intro small Memory services layer driveNo buffer driverBuffer lookup frame answers port memory
      blocks _ bounded fits translates
    constructor
    · intro reads
      exact ahciTransfer_roomy 0 0x25 0xC8 lba answers port fits (reads.even blocks bounded)
        translates small
    · intro writes
      exact ahciTransfer_roomy 1 0x35 0xCA lba answers port fits (writes.even blocks bounded)
        translates small

end Requests

theorem IdentifyData.logicalSectorSize_lt (idData : IdentifyData) :
    idData.logicalSectorSize < 2 ^ 32 := by
  unfold IdentifyData.logicalSectorSize
  split
  · exact Nat.mod_lt _ (by decide)
  · decide

theorem transferBytes_deviceInfo (idData : IdentifyData) {count : Nat} (short : count ≤ 128) :
    LbdLayer.transferBytes idData.deviceInfo count = count * idData.logicalSectorSize := by
  have size := Nat.mul_le_mul short (Nat.le_of_lt idData.logicalSectorSize_lt)
  apply word_of_lt
  change count * idData.logicalSectorSize < 2 ^ 64
  omega

/-- For every drive that is brought up, the admitted requests whose entries fit the command
table and its fields, whatever the buffer, are those of up to 247 pages and two bytes. -/
theorem ahci_prdt_fits_iff (hardware : PortHardware) (memory : PortMemory) (info : LbdDeviceInfo)
    (lba48Support : Bool)
    (accepted : (ahciInitPort hardware memory).registered = some (info, lba48Support))
    (lba count : Nat) (short : count ≤ info.maxSectorsPerTransfer)
    (inside : word (lba + count) < info.totalSectors) :
    RequestFits info lba count ↔
      count * hardware.idData.logicalSectorSize ≤ 247 * 4096 + 2 := by
  have own := ahciInitPort_own hardware memory _ accepted
  have isReported : info = hardware.idData.deviceInfo := congrArg Prod.fst own
  rw [requestFits_iff short inside]
  rw [isReported] at short ⊢
  rw [transferBytes_deviceInfo hardware.idData short]
  rfl

/-- A drive that answers every step and reports a thousand sectors of 512 bytes, or of the
given number of words. -/
def answeringDrive (words : Option UInt16) : PortHardware :=
  { rejectingDrive with
    identify := [0, 0, 0]
    idData := fun index =>
      if index = 60 then 1000
      else match words with
        | none => 0
        | some size => if index = 106 then 0x5000 else if index = 117 then size else 0 }

/-- The largest request of a drive with sectors of 512 bytes. -/
theorem ahci_prdt_fits_iff_plain :
    RequestFits (answeringDrive none).idData.deviceInfo 0 128 :=
  (ahci_prdt_fits_iff (answeringDrive none) plentifulMemory _ false rfl 0 128 (by decide)
    (by decide)).mpr (by decide)

/-- The largest request of a drive with sectors of 8 KiB is brought up, admitted, and needs
more entries than the table has. -/
theorem ahci_prdt_overflows :
    (ahciInitPort (answeringDrive (some 4096)) plentifulMemory).registered =
        some ((answeringDrive (some 4096)).idData.deviceInfo, false) ∧
      128 ≤ (answeringDrive (some 4096)).idData.deviceInfo.maxSectorsPerTransfer ∧
      word (0 + 128) < (answeringDrive (some 4096)).idData.deviceInfo.totalSectors ∧
      ¬ RequestFits (answeringDrive (some 4096)).idData.deviceInfo 0 128 := by
  refine ⟨rfl, by decide, by decide, ?_⟩
  intro fits
  have small := (requestFits_iff (by decide) (by decide)).mp fits
  exact absurd small (by decide)

end Fesos
