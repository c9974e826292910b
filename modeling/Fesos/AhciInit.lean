/-
Bringing up a port: ahci_init_port in drivers/storage/ahci.c.

The answers of the port's registers and of the timer are given for each wait in the
order they are read, and each allocation is granted or refused.  A run is the list of
what the function allocates, releases and stores, and how it ends: with a return
code, in a store through NULL, or not at all while the port does not answer.
-/

import Fesos.Ahci

set_option autoImplicit false

namespace Fesos

open List

/-! ### The IDENTIFY DEVICE data -/

abbrev IdentifyData : Type := Nat → UInt16

namespace IdentifyData

/-- Bits 15 and 14 of a word say that its other bits are valid. -/
def valid (idData : IdentifyData) (index : Nat) : Bool := idData index &&& 0xC000 == 0x4000

def dword (idData : IdentifyData) (index : Nat) : Nat :=
  (idData index).toNat + 2 ^ 16 * (idData (index + 1)).toNat

def qword (idData : IdentifyData) (index : Nat) : Nat :=
  idData.dword index + 2 ^ 32 * idData.dword (index + 2)

def lba48Support (idData : IdentifyData) : Bool :=
  (idData 83).toNat.testBit 10 && idData.valid 83

def sectorCount (idData : IdentifyData) : Nat :=
  if idData.lba48Support ∧ 0 < idData.qword 100 then idData.qword 100 else idData.dword 60

def logicalSectorSize (idData : IdentifyData) : Nat :=
  if idData.valid 106 && (idData 106).toNat.testBit 12 then idData.dword 117 * 2 % 2 ^ 32 else 512

def physicalSectorSize (idData : IdentifyData) : Nat :=
  if idData.valid 106 then
    if (idData 106).toNat.testBit 13 then
      idData.logicalSectorSize * (1 <<< ((idData 106).toNat &&& 0xF)) % 2 ^ 32
    else idData.logicalSectorSize
  else 512

def writeCache (idData : IdentifyData) : Bool :=
  (idData 85).toNat.testBit 5 && idData.valid 83

def sectorOffset (idData : IdentifyData) : Nat :=
  if idData.physicalSectorSize ≠ idData.logicalSectorSize ∧ idData.valid 209 then
    (idData 209).toNat &&& 0x3FFF
  else 0

def deviceInfo (idData : IdentifyData) : LbdDeviceInfo :=
  { totalSectors := idData.sectorCount
    logicalSectorSizeBytes := idData.logicalSectorSize
    physicalSectorSizeBytes := idData.physicalSectorSize
    logicalAlignmentOffset := idData.sectorOffset
    maxSectorsPerTransfer := 128
    flags := if idData.writeCache then lbdFlagW ||| lbdFlagF else lbdFlagW }

end IdentifyData

/-! ### Runs of the function -/

inductive AhciPortReturn where
  | ok
  | timeout
  | notImplemented
  | outOfMemory
  deriving DecidableEq, Repr

inductive PortResource where
  | controlPage
  | driverData
  | commandTable (index : Nat)
  | drive
  deriving DecidableEq, Repr

inductive PortRegister where
  | cmd
  | clb
  | clbu
  | fb
  | fbu
  | serr
  | interruptStatus
  | ci
  deriving DecidableEq, Repr

/-- `filled` is a store into the block, or the attempt when the pointer is NULL. -/
inductive PortEvent where
  | allocated (resource : PortResource)
  | refused (resource : PortResource)
  | released (resource : PortResource)
  | wrote (register : PortRegister)
  | filled (resource : PortResource)
  deriving DecidableEq, Repr

inductive PortEnd where
  | returned (code : AhciPortReturn)
  | faulted
  | waiting
  deriving DecidableEq, Repr

/-- The drive handed to `lbd_register_drive` and its `lba48_support`. -/
structure PortRun where
  trace : List PortEvent
  ended : PortEnd
  registered : Option (LbdDeviceInfo × Bool)

namespace PortRun

def after (run : PortRun) (events : List PortEvent) : PortRun :=
  { run with trace := events ++ run.trace }

def exit (events : List PortEvent) (code : AhciPortReturn) : PortRun :=
  ⟨events, .returned code, none⟩

def fault (events : List PortEvent) : PortRun := ⟨events, .faulted, none⟩

def wait : PortRun := ⟨[], .waiting, none⟩

end PortRun

structure PortHardware where
  stop : List Nat
  fisOff : List Nat
  fisOn : List Nat
  sig : Nat
  start : List Nat
  identify : List Nat
  idData : IdentifyData

structure PortMemory where
  controlPage : Bool
  driverData : Bool
  commandTable : Nat → Bool
  drive : Bool

/-- The loop that waits for a bit of `port->cmd`: each round reads `cmd` and the time.  The test
behind the loop reads `cmd` again. -/
def awaitCmdFrom (bit : Nat) (wanted : Bool) (startMs : Nat) : List Nat → Option Bool
  | [] => none
  | cmd :: rest =>
    if cmd.testBit bit = wanted then rest.head?.map (fun cmd => cmd.testBit bit == wanted)
    else match rest with
      | [] => none
      | ms :: rest =>
        if wordSub ms startMs < 500 then awaitCmdFrom bit wanted startMs rest
        else rest.head?.map (fun cmd => cmd.testBit bit == wanted)

def awaitCmd (bit : Nat) (wanted : Bool) : List Nat → Option Bool
  | [] => none
  | startMs :: rest => awaitCmdFrom bit wanted startMs rest

/-! ### The stages, the last one first -/

section Stages

variable (hardware : PortHardware) (memory : PortMemory)

open PortEvent PortResource PortRegister

/-- The drive is not checked against NULL. -/
def registerDrive : PortRun :=
  if memory.drive then
    ⟨[allocated drive, filled drive, filled driverData], .returned .ok,
      some (hardware.idData.deviceInfo, hardware.idData.lba48Support)⟩
  else PortRun.fault [refused drive, filled drive]

/-- The command headers stand in the control page. -/
def identifyDevice : PortRun :=
  if memory.controlPage then
    PortRun.after
      (match issueCommand hardware.identify with
      | none => PortRun.wait
      | some .completed => registerDrive hardware memory
      | some .rejected => PortRun.exit [released controlPage, released driverData] .timeout
      | some .timedOut => PortRun.exit [released controlPage, released driverData] .timeout)
      [filled driverData, filled controlPage, filled (commandTable 0), filled controlPage, wrote ci]
  else PortRun.fault [filled driverData, filled controlPage]

/-- The loop over the command tables, by the number still to come. -/
def allocateTables : Nat → Nat → PortRun
  | 0, _ => identifyDevice hardware memory
  | remaining + 1, index =>
    if memory.commandTable index then
      if memory.driverData then
        (allocateTables remaining (index + 1)).after
          [allocated (commandTable index), filled driverData]
      else PortRun.fault [allocated (commandTable index), filled driverData]
    else
      PortRun.exit [refused (commandTable index), released controlPage, released driverData]
        .outOfMemory

/-- After a failed kmalloc the control page is released, and the function goes on. -/
def allocateDriverData : PortRun :=
  (allocateTables hardware memory 32 0).after
    (if memory.driverData then [wrote serr, wrote interruptStatus, allocated driverData]
    else [wrote serr, wrote interruptStatus, refused driverData, released controlPage])

def startDma : PortRun :=
  PortRun.after
    (match awaitCmd 15 true hardware.start with
    | none => PortRun.wait
    | some false => PortRun.exit [released controlPage] .timeout
    | some true => allocateDriverData hardware memory)
    [wrote cmd]

def checkSignature : PortRun :=
  if hardware.sig = 0x00000101 then startDma hardware memory
  else PortRun.exit [released controlPage] .notImplemented

def enableFis : PortRun :=
  PortRun.after
    (match awaitCmd 14 true hardware.fisOn with
    | none => PortRun.wait
    | some false => PortRun.exit [released controlPage] .timeout
    | some true => checkSignature hardware memory)
    [wrote clb, wrote clbu, wrote fb, wrote fbu, wrote cmd]

/-- A failed allocation is only logged. -/
def allocateControlPage : PortRun :=
  (enableFis hardware memory).after
    (if memory.controlPage then [allocated controlPage] else [refused controlPage])

def disableFis : PortRun :=
  PortRun.after
    (match awaitCmd 14 false hardware.fisOff with
    | none => PortRun.wait
    | some false => PortRun.exit [] .timeout
    | some true => allocateControlPage hardware memory)
    [wrote cmd]

def ahciInitPort : PortRun :=
  PortRun.after
    (match awaitCmd 15 false hardware.stop with
    | none => PortRun.wait
    | some false => PortRun.exit [] .timeout
    | some true => disableFis hardware memory)
    [wrote cmd]

end Stages

/-! ### Clean runs -/

namespace PortEvent

def isRelease : PortEvent → Bool
  | released _ => true
  | _ => false

def isQuiet : PortEvent → Bool
  | refused _ => false
  | released _ => false
  | _ => true

def granted? : PortEvent → Option PortResource
  | allocated resource => some resource
  | _ => none

end PortEvent

/-- Only releases follow a refused allocation. -/
def HaltsOnRefusal : List PortEvent → Prop
  | [] => True
  | .refused _ :: rest => ∀ event ∈ rest, event.isRelease = true
  | _ :: rest => HaltsOnRefusal rest

/-- What is held, or allocated on the way, has been released once. -/
def Releases (held : List PortResource) (trace : List PortEvent) : Prop :=
  ∀ resource, resource ∈ held ∨ .allocated resource ∈ trace →
    trace.count (.released resource) = 1

/-- A run that starts with some resources held: when it returns an error they have all been
released, and it does not go on after a refused allocation. -/
structure PortRun.CleanFrom (held : List PortResource) (run : PortRun) : Prop where
  released : ∀ code, run.ended = .returned code → code ≠ .ok → Releases held run.trace
  halts : HaltsOnRefusal run.trace

def PortRun.Clean (run : PortRun) : Prop := run.CleanFrom []

section Clean

variable {held : List PortResource} {run : PortRun} {events : List PortEvent}

open PortEvent PortResource

theorem haltsOnRefusal_append (quiet : ∀ event ∈ events, event.isQuiet = true)
    (rest : List PortEvent) : HaltsOnRefusal (events ++ rest) ↔ HaltsOnRefusal rest := by
  induction events with
  | nil => exact Iff.rfl
  | cons event events ih =>
    have later := ih (fun other member => quiet other (mem_cons_of_mem _ member))
    have here := quiet event mem_cons_self
    cases event with
    | refused resource => cases here
    | released resource => cases here
    | allocated resource => exact later
    | wrote register => exact later
    | filled resource => exact later

theorem count_released_append (quiet : ∀ event ∈ events, event.isQuiet = true)
    (rest : List PortEvent) (resource : PortResource) :
    (events ++ rest).count (released resource) = rest.count (released resource) := by
  have none : events.count (released resource) = 0 := by
    apply count_eq_zero.mpr
    intro member
    cases quiet _ member
  rw [count_append, none, Nat.zero_add]

theorem mem_granted {resource : PortResource} :
    resource ∈ events.filterMap granted? ↔ allocated resource ∈ events := by
  rw [mem_filterMap]
  constructor
  · rintro ⟨event, member, isGranted⟩
    cases event with
    | allocated other =>
      cases isGranted
      exact member
    | refused other => cases isGranted
    | released other => cases isGranted
    | wrote register => cases isGranted
    | filled other => cases isGranted
  · intro member
    exact ⟨_, member, rfl⟩

/-- Quiet events only add what they allocate to what is held. -/
theorem cleanFrom_after (quiet : ∀ event ∈ events, event.isQuiet = true) :
    (run.after events).CleanFrom held ↔
      run.CleanFrom (events.filterMap granted? ++ held) := by
  have same : ∀ resource, (resource ∈ held ∨ allocated resource ∈ events ++ run.trace) ↔
      (resource ∈ events.filterMap granted? ++ held ∨ allocated resource ∈ run.trace) := by
    intro resource
    rw [mem_append, mem_append, mem_granted]
    tauto
  constructor
  · intro clean
    constructor
    · intro code ended bad resource member
      have once := clean.released code ended bad resource ((same resource).mpr member)
      change (events ++ run.trace).count _ = 1 at once
      rw [count_released_append quiet] at once
      exact once
    · exact (haltsOnRefusal_append quiet run.trace).mp clean.halts
  · intro clean
    constructor
    · intro code ended bad resource member
      change (events ++ run.trace).count _ = 1
      rw [count_released_append quiet]
      exact clean.released code ended bad resource ((same resource).mp member)
    · exact (haltsOnRefusal_append quiet run.trace).mpr clean.halts

theorem cleanFrom_wait : PortRun.wait.CleanFrom held :=
  ⟨fun _ ended => (by cases ended), trivial⟩

theorem cleanFrom_exit {code : AhciPortReturn} :
    (PortRun.exit events code).CleanFrom held ↔
      (code ≠ .ok → Releases held events) ∧ HaltsOnRefusal events := by
  constructor
  · intro clean
    exact ⟨fun bad => clean.released code rfl bad, clean.halts⟩
  · rintro ⟨releases, halts⟩
    constructor
    · intro other ended bad
      cases ended
      exact releases bad
    · exact halts

theorem releases_controlPage : Releases [controlPage] [released controlPage] := by
  rintro resource (member | member)
  · rw [mem_singleton.mp member]
    rfl
  · cases mem_singleton.mp member

theorem not_releases {resource : PortResource} (member : resource ∈ held)
    (kept : released resource ∉ events) : ¬ Releases held events := by
  intro releases
  have once := releases resource (Or.inl member)
  rw [count_eq_zero.mpr kept] at once
  cases once

end Clean

/-! ### Which runs are clean -/

section Stages

variable (hardware : PortHardware) (memory : PortMemory) {held : List PortResource}

open PortEvent PortResource PortRegister

theorem registerDrive_clean : (registerDrive hardware memory).CleanFrom held ↔
    memory.drive = true := by
  unfold registerDrive
  by_cases granted : memory.drive = true
  · rw [if_pos granted]
    constructor
    · exact fun _ => granted
    · intro _
      constructor
      · intro code ended bad
        cases ended
        exact absurd rfl bad
      · exact trivial
  · rw [if_neg granted]
    constructor
    · intro clean
      have stops := clean.halts (filled drive) mem_cons_self
      cases stops
    · exact fun all => absurd all granted

/-- Both failing outcomes of IDENTIFY DEVICE leave the command tables behind. -/
theorem identifyDevice_clean (control : memory.controlPage = true)
    (table : commandTable 0 ∈ held) : (identifyDevice hardware memory).CleanFrom held ↔
      (issueCommand hardware.identify = none ∨
        (issueCommand hardware.identify = some .completed ∧ memory.drive = true)) := by
  have leaks : ∀ others : List PortResource,
      ¬ (PortRun.exit [released controlPage, released driverData] .timeout).CleanFrom
        (others ++ held) := by
    intro others clean
    exact not_releases (mem_append_right others table) (by decide)
      ((cleanFrom_exit.mp clean).1 (by decide))
  unfold identifyDevice
  rw [if_pos control, cleanFrom_after (by decide)]
  cases issued : issueCommand hardware.identify with
  | none => exact iff_of_true cleanFrom_wait (Or.inl rfl)
  | some outcome =>
    cases outcome with
    | completed =>
      change (registerDrive hardware memory).CleanFrom _ ↔ _
      rw [registerDrive_clean]
      constructor
      · exact fun granted => Or.inr ⟨rfl, granted⟩
      · rintro (impossible | ⟨_, granted⟩)
        · cases impossible
        · exact granted
    | rejected =>
      apply iff_of_false (leaks _)
      rintro (impossible | ⟨impossible, _⟩)
      · cases impossible
      · cases impossible
    | timedOut =>
      apply iff_of_false (leaks _)
      rintro (impossible | ⟨impossible, _⟩)
      · cases impossible
      · cases impossible

theorem quiet_table (index : Nat) : ∀ event ∈ [allocated (commandTable index), filled driverData],
    event.isQuiet = true := by
  intro event member
  rcases mem_cons.mp member with first | last
  · rw [first]
    rfl
  · rw [mem_singleton.mp last]
    rfl

/-- Once a table is held, the loop has to come to its end. -/
theorem allocateTables_clean (control : memory.controlPage = true)
    (data : memory.driverData = true) (remaining index : Nat)
    (table : commandTable 0 ∈ held) (behind : 0 < index) :
    (allocateTables hardware memory remaining index).CleanFrom held ↔
      ((∀ later, index ≤ later → later < index + remaining → memory.commandTable later = true) ∧
        (issueCommand hardware.identify = none ∨
          (issueCommand hardware.identify = some .completed ∧ memory.drive = true))) := by
  induction remaining generalizing index held with
  | zero =>
    rw [allocateTables, identifyDevice_clean hardware memory control table]
    constructor
    · exact fun ends => ⟨fun later above below => by omega, ends⟩
    · exact fun both => both.2
  | succ remaining ih =>
    rw [allocateTables]
    by_cases granted : memory.commandTable index = true
    · rw [if_pos granted, if_pos data, cleanFrom_after (quiet_table index),
        ih (index + 1) (mem_append_right _ table) (Nat.succ_pos index)]
      constructor
      · rintro ⟨rest, ends⟩
        refine ⟨?_, ends⟩
        intro later above below
        by_cases here : later = index
        · rw [here]
          exact granted
        · exact rest later (by omega) (by omega)
      · rintro ⟨all, ends⟩
        exact ⟨fun later above below => all later (by omega) (by omega), ends⟩
    · rw [if_neg granted]
      constructor
      · intro clean
        exact absurd ((cleanFrom_exit.mp clean).1 (by decide))
          (not_releases table (by simp))
      · rintro ⟨all, _⟩
        exact absurd (all index (Nat.le_refl _) (by omega)) granted

/-- The first table is the only one whose refusal leaves nothing behind. -/
theorem allTables_clean (control : memory.controlPage = true) (data : memory.driverData = true) :
    (allocateTables hardware memory 32 0).CleanFrom [driverData, controlPage] ↔
      (memory.commandTable 0 = false ∨
        ((∀ index < 32, memory.commandTable index = true) ∧
          (issueCommand hardware.identify = none ∨
            (issueCommand hardware.identify = some .completed ∧ memory.drive = true)))) := by
  rw [allocateTables]
  by_cases granted : memory.commandTable 0 = true
  · have first : commandTable 0 ∈ [allocated (commandTable 0), filled driverData].filterMap
        granted? ++ [driverData, controlPage] := by decide
    rw [if_pos granted, if_pos data, cleanFrom_after (quiet_table 0),
      allocateTables_clean hardware memory control data 31 (0 + 1) first (Nat.succ_pos 0)]
    constructor
    · rintro ⟨rest, ends⟩
      refine Or.inr ⟨?_, ends⟩
      intro index below
      by_cases isFirst : index = 0
      · rw [isFirst]
        exact granted
      · exact rest index (by omega) (by omega)
    · rintro (refusedFirst | ⟨all, ends⟩)
      · rw [granted] at refusedFirst
        cases refusedFirst
      · exact ⟨fun later _ below => all later (by omega), ends⟩
  · rw [if_neg granted]
    apply iff_of_true
    · apply cleanFrom_exit.mpr
      constructor
      · rintro _ resource (member | member)
        · rcases mem_cons.mp member with isData | rest
          · rw [isData]
            rfl
          · rw [mem_singleton.mp rest]
            rfl
        · exact absurd member (by simp)
      · change ∀ event ∈ [released controlPage, released driverData], event.isRelease = true
        decide
    · exact Or.inl (Bool.not_eq_true _ ▸ granted)

/-- A refused `driver_data` is never the end: the loop over the tables follows. -/
theorem allocateDriverData_clean (control : memory.controlPage = true) :
    (allocateDriverData hardware memory).CleanFrom [controlPage] ↔
      (memory.driverData = true ∧
        (memory.commandTable 0 = false ∨
          ((∀ index < 32, memory.commandTable index = true) ∧
            (issueCommand hardware.identify = none ∨
              (issueCommand hardware.identify = some .completed ∧ memory.drive = true))))) := by
  unfold allocateDriverData
  by_cases data : memory.driverData = true
  · rw [if_pos data, cleanFrom_after (by decide)]
    have held := allTables_clean hardware memory control data
    constructor
    · exact fun clean => ⟨data, held.mp clean⟩
    · exact fun both => held.mpr both.2
  · rw [if_neg data]
    apply iff_of_false
    · intro clean
      have stops : ∀ event ∈ released controlPage :: (allocateTables hardware memory 32 0).trace,
          event.isRelease = true := clean.halts
      rw [allocateTables, if_neg data] at stops
      by_cases table : memory.commandTable 0 = true
      · rw [if_pos table] at stops
        have impossible := stops (allocated (commandTable 0)) (by decide)
        cases impossible
      · rw [if_neg table] at stops
        have impossible := stops (refused (commandTable 0)) (by decide)
        cases impossible
    · exact fun both => data both.1

/-- A stage that waits for a bit, gives the control page back when the bit does not come, and
goes on otherwise. -/
theorem awaited_clean {answers : List Nat} {bit : Nat} {wanted : Bool} {events : List PortEvent}
    {next : PortRun} (quiet : ∀ event ∈ events, event.isQuiet = true)
    (nothing : events.filterMap granted? = []) {leave : List PortEvent}
    (left : (PortRun.exit leave .timeout).CleanFrom held) :
    (PortRun.after
      (match awaitCmd bit wanted answers with
      | none => PortRun.wait
      | some false => PortRun.exit leave .timeout
      | some true => next) events).CleanFrom held ↔
      (awaitCmd bit wanted answers = some true → next.CleanFrom held) := by
  rw [cleanFrom_after quiet, nothing, nil_append]
  cases awaited : awaitCmd bit wanted answers with
  | none => exact iff_of_true cleanFrom_wait (fun impossible => by cases impossible)
  | some came =>
    cases came with
    | false => exact iff_of_true left (fun impossible => by cases impossible)
    | true => exact ⟨fun clean _ => clean, fun clean => clean rfl⟩

theorem exit_controlPage (code : AhciPortReturn) :
    (PortRun.exit [released controlPage] code).CleanFrom [controlPage] :=
  cleanFrom_exit.mpr ⟨fun _ => releases_controlPage, trivial⟩

theorem exit_nothing (code : AhciPortReturn) : (PortRun.exit [] code).CleanFrom [] := by
  apply cleanFrom_exit.mpr
  constructor
  · rintro _ resource (member | member)
    · cases member
    · cases member
  · exact trivial

def CleansUp : Prop :=
  awaitCmd 15 false hardware.stop = some true →
    awaitCmd 14 false hardware.fisOff = some true →
      memory.controlPage = true ∧
        (awaitCmd 14 true hardware.fisOn = some true → hardware.sig = 0x00000101 →
          awaitCmd 15 true hardware.start = some true →
            memory.driverData = true ∧
              (memory.commandTable 0 = false ∨
                ((∀ index < 32, memory.commandTable index = true) ∧
                  (issueCommand hardware.identify = none ∨
                    (issueCommand hardware.identify = some .completed ∧ memory.drive = true)))))

theorem enableFis_clean :
    (enableFis hardware memory).CleanFrom [controlPage] ↔
      (awaitCmd 14 true hardware.fisOn = some true → hardware.sig = 0x00000101 →
        awaitCmd 15 true hardware.start = some true →
          (allocateDriverData hardware memory).CleanFrom [controlPage]) := by
  unfold enableFis
  rw [awaited_clean (by decide) rfl (exit_controlPage .timeout)]
  apply imp_congr_right
  intro _
  unfold checkSignature
  by_cases disk : hardware.sig = 0x00000101
  · rw [if_pos disk]
    unfold startDma
    rw [awaited_clean (by decide) rfl (exit_controlPage .timeout)]
    exact ⟨fun clean _ => clean, fun clean => clean disk⟩
  · rw [if_neg disk]
    exact iff_of_true (exit_controlPage .notImplemented) (fun isDisk => absurd isDisk disk)

theorem allocateControlPage_clean : (allocateControlPage hardware memory).CleanFrom [] ↔
    (memory.controlPage = true ∧ (enableFis hardware memory).CleanFrom [controlPage]) := by
  unfold allocateControlPage
  by_cases control : memory.controlPage = true
  · rw [if_pos control, cleanFrom_after (by decide)]
    exact ⟨fun clean => ⟨control, clean⟩, fun both => both.2⟩
  rw [if_neg control]
  apply iff_of_false
  · intro clean
    have stops : ∀ event ∈ (enableFis hardware memory).trace, event.isRelease = true :=
      clean.halts
    have impossible := stops (wrote clb) mem_cons_self
    cases impossible
  · exact fun both => control both.1

end Stages

/-- Every exit of the port initialisation cleans up after itself, and no allocation failure is
passed over, in exactly these runs. -/
theorem ahci_init_port_clean_iff (hardware : PortHardware) (memory : PortMemory) :
    (ahciInitPort hardware memory).Clean ↔ CleansUp hardware memory := by
  unfold PortRun.Clean ahciInitPort CleansUp
  rw [awaited_clean (by decide) rfl (exit_nothing .timeout)]
  apply imp_congr_right
  intro _
  unfold disableFis
  rw [awaited_clean (by decide) rfl (exit_nothing .timeout)]
  apply imp_congr_right
  intro _
  rw [allocateControlPage_clean]
  apply and_congr_right
  intro control
  rw [enableFis_clean hardware memory, allocateDriverData_clean hardware memory control]

def rejectingDrive : PortHardware :=
  { stop := [0, 0, 0]
    fisOff := [0, 0, 0]
    fisOn := [0, 2 ^ 14, 2 ^ 14]
    sig := 0x00000101
    start := [0, 2 ^ 15, 2 ^ 15]
    identify := [0, 1, 1, 1]
    idData := fun _ => 0 }

def plentifulMemory : PortMemory :=
  { controlPage := true
    driverData := true
    commandTable := fun _ => true
    drive := true }

/-- The 32 command tables are lost when the drive rejects IDENTIFY DEVICE. -/
theorem ahci_init_port_leaks_tables :
    ¬ (ahciInitPort rejectingDrive plentifulMemory).Clean := by
  intro clean
  have once := clean.released .timeout (by decide) (by decide) (.commandTable 0)
    (Or.inr (by decide))
  exact absurd once (by decide)

end Fesos
