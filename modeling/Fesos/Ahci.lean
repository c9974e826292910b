/-
The transfers of drivers/storage/ahci.c.

`ahci_read` and `ahci_write` differ in the command bytes and the write bit only.  A
transfer clears the command table, builds the PRDT out of the buffer's pages, fills
the header and the command FIS, and waits for the port.  Translations are asked of
`lookup`, the kernel's `vmm_get_physical_from_virtual`.  What the port's registers
and the timer answer is a list, in the order they are read; a call whose answers run
out is still waiting.  `entriesWritten` and `chunkLengths` are history variables.
-/

import Fesos.LbdTransfer

set_option autoImplicit false

namespace Fesos

/-- `dba`, `dbau` and `i` as stored; `dbc` has 22 bits. -/
structure HbaPrdtEntry where
  dba : Nat
  dbau : Nat
  dbc : Nat
  i : Nat
  deriving DecidableEq, Repr

structure HbaCmdHeader where
  cfl : Nat
  w : Nat
  prdtl : Nat
  prdbc : Nat
  deriving DecidableEq, Repr

structure FisRegH2D where
  fisType : UInt8
  c : UInt8
  command : UInt8
  lba0 : UInt8
  lba1 : UInt8
  lba2 : UInt8
  device : UInt8
  lba3 : UInt8
  lba4 : UInt8
  lba5 : UInt8
  countl : UInt8
  counth : UInt8
  deriving DecidableEq, Repr

structure HbaCmdTbl where
  cfis : FisRegH2D
  prdtEntry : Nat → HbaPrdtEntry

structure AhciPort where
  commandHeader : HbaCmdHeader
  cmdtbl : HbaCmdTbl
  lba48Support : Bool
  entriesWritten : Nat
  chunkLengths : List Nat

/-! ### The physical region descriptors -/

namespace HbaPrdtEntry

def zero : HbaPrdtEntry := ⟨0, 0, 0, 0⟩

def ofChunk (chunkPhysStart chunkBytes : Nat) : HbaPrdtEntry :=
  { dba := chunkPhysStart % 2 ^ 32
    dbau := chunkPhysStart / 2 ^ 32 % 2 ^ 32
    dbc := (chunkBytes - 1) % 2 ^ 22
    i := 0 }

end HbaPrdtEntry

/-- The variables of the loop, the table it writes, the entries written so far and the
lengths of the chunks they were written for. -/
structure PrdtBuild where
  prdtEntry : Nat → HbaPrdtEntry
  prdtIndex : Nat
  chunkPhysStart : Nat
  chunkBytes : Nat
  lastPhysEnd : Nat
  written : List HbaPrdtEntry
  chunkLengths : List Nat

namespace PrdtBuild

def start (prdtEntry : Nat → HbaPrdtEntry) : PrdtBuild :=
  { prdtEntry := prdtEntry
    prdtIndex := 0
    chunkPhysStart := 0
    chunkBytes := 0
    lastPhysEnd := 0
    written := []
    chunkLengths := [] }

def flush (build : PrdtBuild) : PrdtBuild :=
  let entry := HbaPrdtEntry.ofChunk build.chunkPhysStart build.chunkBytes
  { build with
    prdtEntry := Function.update build.prdtEntry build.prdtIndex entry
    prdtIndex := (build.prdtIndex + 1) % 2 ^ 16
    written := build.written ++ [entry]
    chunkLengths := build.chunkLengths ++ [build.chunkBytes] }

def flushIfAny (build : PrdtBuild) : PrdtBuild :=
  if 0 < build.chunkBytes then build.flush else build

/-- The body of the loop once the step's address and length are known. -/
def add (build : PrdtBuild) (currentPaddr bytesThisStep : Nat) : PrdtBuild :=
  let chunk :=
    if build.chunkBytes = 0 ∨ currentPaddr ≠ build.lastPhysEnd then
      { build.flushIfAny with chunkPhysStart := currentPaddr, chunkBytes := 0 }
    else build
  { chunk with
    chunkBytes := word (chunk.chunkBytes + bytesThisStep)
    lastPhysEnd := word (currentPaddr + bytesThisStep) }

end PrdtBuild

/-- `bytes_this_step`: up to the end of the page or of the buffer. -/
def bytesThisStep (currentVaddr remainingBytes : Nat) : Nat :=
  min (0x1000 - currentVaddr % 4096) remainingBytes

theorem bytesThisStep_pos (currentVaddr : Nat) {remainingBytes : Nat} (some : remainingBytes ≠ 0) :
    0 < bytesThisStep currentVaddr remainingBytes := by
  unfold bytesThisStep
  omega

theorem bytesThisStep_le (currentVaddr remainingBytes : Nat) :
    bytesThisStep currentVaddr remainingBytes ≤ remainingBytes :=
  Nat.min_le_right _ _

section Transfer

variable {Memory : Type} (lookup : Nat → Memory → Nat × Memory)

def prdtLoop (remainingBytes currentVaddr : Nat) (build : PrdtBuild) (memory : Memory) :
    PrdtBuild × Memory :=
  if remainingBytes = 0 then (build, memory)
  else
    let currentPaddr := lookup currentVaddr memory
    let step := bytesThisStep currentVaddr remainingBytes
    prdtLoop (remainingBytes - step) (word (currentVaddr + step)) (build.add currentPaddr.1 step)
      currentPaddr.2
termination_by remainingBytes
decreasing_by
  have positive := bytesThisStep_pos currentVaddr ‹¬ remainingBytes = 0›
  omega

/-! ### The command -/

def FisRegH2D.zero : FisRegH2D := ⟨0, 0, 0, 0, 0, 0, 0, 0, 0, 0, 0, 0⟩

/-- `volatile_memset(cmdtbl, 0, sizeof(HBA_CMD_TBL))`: the FIS and the first entry. -/
def HbaCmdTbl.clear (cmdtbl : HbaCmdTbl) : HbaCmdTbl :=
  { cfis := FisRegH2D.zero
    prdtEntry := Function.update cmdtbl.prdtEntry 0 HbaPrdtEntry.zero }

def fisTypeRegH2D : UInt8 := 0x27

/-- `1 << 6`, the LBA mode bit of the device register. -/
def lbaMode : UInt8 := 0x40

/-- `(uint8_t)(value & 0xFF)`. -/
def lowByte (value : Nat) : UInt8 := UInt8.ofNat value

def FisRegH2D.fill48 (fis : FisRegH2D) (command : UInt8) (lba count : Nat) : FisRegH2D :=
  { fis with
    fisType := fisTypeRegH2D
    c := 1
    command := command
    countl := lowByte count
    counth := lowByte (count >>> 8)
    lba0 := lowByte lba
    lba1 := lowByte (lba >>> 8)
    lba2 := lowByte (lba >>> 16)
    lba3 := lowByte (lba >>> 24)
    lba4 := lowByte (lba >>> 32)
    lba5 := lowByte (lba >>> 40)
    device := lbaMode }

def FisRegH2D.fill28 (fis : FisRegH2D) (command : UInt8) (lba count : Nat) : FisRegH2D :=
  { fis with
    fisType := fisTypeRegH2D
    c := 1
    command := command
    countl := lowByte count
    lba0 := lowByte lba
    lba1 := lowByte (lba >>> 8)
    lba2 := lowByte (lba >>> 16)
    device := lowByte ((lba >>> 24) &&& 0xF) ||| lbaMode }

/-! ### Waiting for the port -/

inductive IssueOutcome where
  | completed
  | rejected
  | timedOut
  deriving DecidableEq, Repr

def checkIssued : List Nat → Option IssueOutcome
  | [] => none
  | ci :: _ => some (if ci.testBit 0 then .timedOut else .completed)

/-- The loop that waits for bit 0 of `port->ci`: each round reads `ci`, the time and `tfd`. -/
def awaitIssued (startMs : Nat) : List Nat → Option IssueOutcome
  | [] => none
  | ci :: rest =>
    if ci.testBit 0 then
      match rest with
      | [] => none
      | ms :: rest =>
        if wordSub ms startMs < 10000 then
          match rest with
          | [] => none
          | tfd :: rest =>
            if tfd.testBit 0 then some .rejected else awaitIssued startMs rest
        else checkIssued rest
    else checkIssued rest

/-- Fire the command and wait; the time is read first. -/
def issueCommand : List Nat → Option IssueOutcome
  | [] => none
  | startMs :: rest => awaitIssued startMs rest

def IssueOutcome.status : IssueOutcome → Int
  | .completed => 0
  | .rejected => - EIO
  | .timedOut => - EIO

/-! ### Reading, writing and flushing -/

/-- A transfer, given its write bit and its two command bytes.  No status means that the port
has not answered yet. -/
def ahciTransfer (w : Nat) (command48 command28 : UInt8) (info : LbdDeviceInfo)
    (lba count buffer : Nat) (answers : List Nat) (port : AhciPort) (memory : Memory) :
    Option Int × AhciPort × Memory :=
  let cleared := port.cmdtbl.clear
  let looped := prdtLoop lookup (LbdLayer.transferBytes info count) buffer
    (PrdtBuild.start cleared.prdtEntry) memory
  let built := looped.1.flushIfAny
  let cfis :=
    if port.lba48Support then cleared.cfis.fill48 command48 lba count
    else cleared.cfis.fill28 command28 lba count
  ((issueCommand answers).map IssueOutcome.status,
    { port with
      commandHeader := ⟨5, w, built.prdtIndex, 0⟩
      cmdtbl := ⟨cfis, built.prdtEntry⟩
      entriesWritten := built.written.length
      chunkLengths := built.chunkLengths },
    looped.2)

def ahciRead (info : LbdDeviceInfo) (lba count buffer : Nat) (answers : List Nat)
    (port : AhciPort) (memory : Memory) : Option Int × AhciPort × Memory :=
  ahciTransfer lookup 0 0x25 0xC8 info lba count buffer answers port memory

def ahciWrite (info : LbdDeviceInfo) (lba count buffer : Nat) (answers : List Nat)
    (port : AhciPort) (memory : Memory) : Option Int × AhciPort × Memory :=
  ahciTransfer lookup 1 0x35 0xCA info lba count buffer answers port memory

end Transfer

def ahciFlush (answers : List Nat) (port : AhciPort) : Option Int × AhciPort :=
  let cleared := port.cmdtbl.clear
  let command : UInt8 := if port.lba48Support then 0xEA else 0xE7
  ((issueCommand answers).map IssueOutcome.status,
    { port with
      commandHeader := ⟨5, 0, 0, 0⟩
      cmdtbl :=
        { cleared with
          cfis :=
            { cleared.cfis with
              fisType := fisTypeRegH2D
              c := 1
              device := lbaMode
              command := command } } })

/-! ### Decoding the command -/

/-- Address and count of a 48-bit command by the ATA rules. -/
def FisRegH2D.decode48 (fis : FisRegH2D) : Nat × Nat :=
  (fis.lba0.toNat + 2 ^ 8 * fis.lba1.toNat + 2 ^ 16 * fis.lba2.toNat + 2 ^ 24 * fis.lba3.toNat +
      2 ^ 32 * fis.lba4.toNat + 2 ^ 40 * fis.lba5.toNat,
    fis.countl.toNat + 2 ^ 8 * fis.counth.toNat)

/-- Address and count of a 28-bit command: four bits of the address are in the device
register. -/
def FisRegH2D.decode28 (fis : FisRegH2D) : Nat × Nat :=
  (fis.lba0.toNat + 2 ^ 8 * fis.lba1.toNat + 2 ^ 16 * fis.lba2.toNat +
      2 ^ 24 * (fis.device.toNat % 16),
    fis.countl.toNat)

def AhciPort.decode (port : AhciPort) : Nat × Nat :=
  if port.lba48Support then port.cmdtbl.cfis.decode48 else port.cmdtbl.cfis.decode28

def AhciPort.lbaLimit (port : AhciPort) : Nat := if port.lba48Support then 2 ^ 48 else 2 ^ 28

theorem lowByte_toNat (value : Nat) : (lowByte value).toNat = value % 2 ^ 8 :=
  UInt8.toNat_ofNat'

theorem decode48_fill48 (fis : FisRegH2D) (command : UInt8) {lba count : Nat}
    (lbaBounded : lba < 2 ^ 48) (countBounded : count < 2 ^ 16) :
    (fis.fill48 command lba count).decode48 = (lba, count) := by
  unfold FisRegH2D.decode48 FisRegH2D.fill48
  simp only [lowByte_toNat, Nat.shiftRight_eq_div_pow]
  apply Prod.ext
  · change _ = lba
    omega
  · change _ = count
    omega

theorem device_nibble : ∀ nibble < 16, (lowByte nibble ||| lbaMode).toNat = nibble + 64 ∧
    (lowByte nibble ||| lbaMode).toNat.testBit 6 = true := by
  decide

theorem high_nibble {lba : Nat} (lbaBounded : lba < 2 ^ 28) :
    (lba >>> 24) &&& 0xF = lba / 2 ^ 24 := by
  have masked : lba / 2 ^ 24 &&& (2 ^ 4 - 1) = lba / 2 ^ 24 % 2 ^ 4 :=
    Nat.and_two_pow_sub_one_eq_mod _ _
  rw [Nat.shiftRight_eq_div_pow]
  change lba / 2 ^ 24 &&& (2 ^ 4 - 1) = _
  rw [masked]
  omega

theorem decode28_fill28 (fis : FisRegH2D) (command : UInt8) {lba count : Nat}
    (lbaBounded : lba < 2 ^ 28) (countBounded : count < 2 ^ 8) :
    (fis.fill28 command lba count).decode28 = (lba, count) := by
  have device := (device_nibble (lba / 2 ^ 24) (by omega)).1
  unfold FisRegH2D.decode28 FisRegH2D.fill28
  rw [high_nibble lbaBounded]
  simp only [lowByte_toNat, Nat.shiftRight_eq_div_pow, device]
  apply Prod.ext
  · change _ = lba
    omega
  · change _ = count
    omega

section Commands

variable {Memory : Type}

/-- Whatever the command bytes are, the drive decodes the request, in LBA mode. -/
theorem ahciTransfer_decodes (lookup : Nat → Memory → Nat × Memory) (w : Nat)
    (command48 command28 : UInt8) (info : LbdDeviceInfo) {lba count : Nat} (buffer : Nat)
    (answers : List Nat) (port : AhciPort) (memory : Memory) (short : count < 2 ^ 8)
    (fits : lba < port.lbaLimit) :
    (ahciTransfer lookup w command48 command28 info lba count buffer answers port
        memory).2.1.decode = (lba, count) ∧
      (ahciTransfer lookup w command48 command28 info lba count buffer answers port
        memory).2.1.cmdtbl.cfis.device.toNat.testBit 6 = true := by
  unfold AhciPort.lbaLimit at fits
  unfold AhciPort.decode ahciTransfer
  dsimp only
  cases mode : port.lba48Support with
  | true =>
    rw [mode, if_pos rfl] at fits
    simp only [if_true]
    constructor
    · exact decode48_fill48 _ _ fits (by omega)
    · change lbaMode.toNat.testBit 6 = true
      decide
  | false =>
    rw [mode, if_neg Bool.false_ne_true] at fits
    simp only [Bool.false_eq_true, if_false]
    constructor
    · exact decode28_fill28 _ _ fits short
    · unfold FisRegH2D.fill28
      rw [high_nibble fits]
      exact (device_nibble (lba / 2 ^ 24) (by omega)).2

/-- Reads and writes of up to 128 sectors reach the drive as they were requested, and differ
in the command byte only. -/
theorem ahci_commands_decode (lookup : Nat → Memory → Nat × Memory) (info : LbdDeviceInfo)
    (lba count buffer : Nat) (answers : List Nat) (port : AhciPort) (memory : Memory)
    (positive : 1 ≤ count) (short : count ≤ 128) (fits : lba + count ≤ port.lbaLimit) :
    ((ahciRead lookup info lba count buffer answers port memory).2.1.decode = (lba, count) ∧
      (ahciRead lookup info lba count buffer answers port
        memory).2.1.cmdtbl.cfis.device.toNat.testBit 6 = true) ∧
    ((ahciWrite lookup info lba count buffer answers port memory).2.1.decode = (lba, count) ∧
      (ahciWrite lookup info lba count buffer answers port
        memory).2.1.cmdtbl.cfis.device.toNat.testBit 6 = true) ∧
    (ahciWrite lookup info lba count buffer answers port memory).2.1.cmdtbl.cfis =
      { (ahciRead lookup info lba count buffer answers port memory).2.1.cmdtbl.cfis with
        command := (ahciWrite lookup info lba count buffer answers port
          memory).2.1.cmdtbl.cfis.command } := by
  have inside : lba < port.lbaLimit := by omega
  refine ⟨?_, ?_, ?_⟩
  · exact ahciTransfer_decodes lookup 0 0x25 0xC8 info buffer answers port memory (by omega) inside
  · exact ahciTransfer_decodes lookup 1 0x35 0xCA info buffer answers port memory (by omega) inside
  · unfold ahciWrite ahciRead ahciTransfer
    cases port.lba48Support with
    | true => rfl
    | false => rfl

def idlePort (lba48Support : Bool) : AhciPort :=
  { commandHeader := ⟨0, 0, 0, 0⟩
    cmdtbl := ⟨FisRegH2D.zero, fun _ => HbaPrdtEntry.zero⟩
    lba48Support := lba48Support
    entriesWritten := 0
    chunkLengths := [] }

/-- The last eight sectors a 28-bit drive can address. -/
theorem ahci_commands_decode_legacy :
    (ahciRead (fun vAddr (memory : Unit) => (vAddr, memory)) ⟨2 ^ 28, 512, 512, 0, 128, 1⟩
      (2 ^ 28 - 8) 8 0x7000 [] (idlePort false) ()).2.1.decode = (2 ^ 28 - 8, 8) :=
  (ahci_commands_decode _ _ (2 ^ 28 - 8) 8 _ _ (idlePort false) () (by decide) (by decide)
    (by decide)).1.1

end Commands

end Fesos
