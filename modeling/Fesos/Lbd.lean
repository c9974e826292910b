/-
The table of logical drives of drivers/block/lbd.c.

A drive is named by its address; `driveNo` is the `drive_no` field in the drive's
memory.  The drive count is an 8-bit integer, so the capacity test
`next_drive_num >= 256` never holds; its body would only log and has no
counterpart here.
-/

import Fesos.Library.Runs
import Fesos.Machine

set_option autoImplicit false

namespace Fesos

open Library List Function

def logicalDriveArraySize : Nat := 256

structure Lbd where
  lbdDrives : UInt8 → Nat
  nextDriveNum : UInt8
  driveNo : Nat → UInt8

namespace Lbd

/-- The zeroed static data; the drives' own memory is arbitrary. -/
def boot (driveNo : Nat → UInt8) : Lbd :=
  { lbdDrives := fun _ => 0
    nextDriveNum := 0
    driveNo := driveNo }

def lbdRegisterDrive (lbd : Lbd) (logicalDrive : Nat) : Except Fault Lbd :=
  if logicalDrive = 0 then .error .nullDereference
  else
    let driveNum := lbd.nextDriveNum
    .ok
      { lbdDrives := Function.update lbd.lbdDrives driveNum logicalDrive
        nextDriveNum := lbd.nextDriveNum + 1
        driveNo := Function.update lbd.driveNo logicalDrive driveNum }

end Lbd

structure Registration where
  drive : Nat
  number : UInt8
  deriving DecidableEq, Repr

structure LbdSystem where
  lbd : Lbd
  accepted : List Registration

namespace LbdSystem

def boot (driveNo : Nat → UInt8) : LbdSystem :=
  { lbd := Lbd.boot driveNo
    accepted := [] }

def register (system : LbdSystem) (logicalDrive : Nat) : Except Fault LbdSystem :=
  match system.lbd.lbdRegisterDrive logicalDrive with
  | .ok lbd =>
    .ok
      { lbd := lbd
        accepted := ⟨logicalDrive, lbd.driveNo logicalDrive⟩ :: system.accepted }
  | .error fault => .error fault

structure Kept (system : LbdSystem) : Prop where
  own : ∀ entry ∈ system.accepted, system.lbd.driveNo entry.drive = entry.number
  found : ∀ entry ∈ system.accepted, system.lbd.lbdDrives entry.number = entry.drive
  apart : ∀ left ∈ system.accepted, ∀ right ∈ system.accepted,
    left.number = right.number → left.drive = right.drive

def Fits (system : LbdSystem) (logicalDrive : Nat) : Prop :=
  system.accepted.length < logicalDriveArraySize ∧
    ∀ entry ∈ system.accepted, entry.drive ≠ logicalDrive

instance (system : LbdSystem) (logicalDrive : Nat) : Decidable (system.Fits logicalDrive) :=
  inferInstanceAs (Decidable (_ ∧ _))

structure Numbered (system : LbdSystem) : Prop where
  kept : system.Kept
  room : system.accepted.length ≤ logicalDriveArraySize
  next : system.lbd.nextDriveNum = UInt8.ofNat system.accepted.length
  below : ∀ entry ∈ system.accepted, entry.number.toNat < system.accepted.length

theorem Numbered.boot (driveNo : Nat → UInt8) : (LbdSystem.boot driveNo).Numbered where
  kept :=
    { own := fun _ member => absurd member not_mem_nil
      found := fun _ member => absurd member not_mem_nil
      apart := fun _ member => absurd member not_mem_nil }
  room := Nat.zero_le _
  next := rfl
  below := fun _ member => absurd member not_mem_nil

theorem Numbered.register {system next : LbdSystem} {logicalDrive : Nat}
    (numbered : system.Numbered) (fits : system.Fits logicalDrive)
    (returned : system.register logicalDrive = .ok next) : next.Numbered := by
  obtain ⟨room, fresh⟩ := fits
  unfold LbdSystem.register Lbd.lbdRegisterDrive at returned
  by_cases null : logicalDrive = 0
  · rw [if_pos null] at returned
    cases returned
  rw [if_neg null] at returned
  cases returned
  have newNumber : system.lbd.nextDriveNum.toNat = system.accepted.length := by
    rw [numbered.next, UInt8.toNat_ofNat']
    exact Nat.mod_eq_of_lt room
  have unused : ∀ entry ∈ system.accepted, entry.number ≠ system.lbd.nextDriveNum := by
    intro entry member same
    have bound := numbered.below entry member
    rw [same, newNumber] at bound
    exact Nat.lt_irrefl _ bound
  refine ⟨⟨?_, ?_, ?_⟩, ?_, ?_, ?_⟩
  · intro entry member
    rcases mem_cons.mp member with isNew | old
    · rw [isNew]
    · change Function.update _ _ _ _ = _
      rw [update_of_ne (fresh entry old)]
      exact numbered.kept.own entry old
  · intro entry member
    rcases mem_cons.mp member with isNew | old
    · rw [isNew]
      simp only [update_self]
    · change Function.update _ _ _ _ = _
      rw [update_of_ne (unused entry old)]
      exact numbered.kept.found entry old
  · intro left leftIn right rightIn same
    rcases mem_cons.mp leftIn with leftNew | leftOld
    · rcases mem_cons.mp rightIn with rightNew | rightOld
      · rw [leftNew, rightNew]
      · rw [leftNew] at same
        simp only [update_self] at same
        exact absurd same.symm (unused right rightOld)
    · rcases mem_cons.mp rightIn with rightNew | rightOld
      · rw [rightNew] at same
        simp only [update_self] at same
        exact absurd same (unused left leftOld)
      · exact numbered.kept.apart left leftOld right rightOld same
  · exact room
  · change system.lbd.nextDriveNum + 1 = UInt8.ofNat (system.accepted.length + 1)
    rw [numbered.next, UInt8.ofNat_add]
    rfl
  · intro entry member
    rw [length_cons]
    rcases mem_cons.mp member with isNew | old
    · rw [isNew]
      simp only [update_self]
      omega
    · exact Nat.lt_succ_of_lt (numbered.below entry old)

/-- Over every run that registers each drive once and stops at a full table, all
drives keep their numbers. -/
theorem lbd_run_keeps_numbers (driveNo : Nat → UInt8) (drives : List Nat) (final : LbdSystem)
    (run : Run LbdSystem.register LbdSystem.Fits (LbdSystem.boot driveNo) drives final) :
    final.Kept ∧ final.accepted.length ≤ logicalDriveArraySize := by
  have numbered : final.Numbered := by
    apply run.invariant LbdSystem.Numbered (Numbered.boot driveNo)
    intro system drive next before fits returned
    exact before.register fits returned
  exact ⟨numbered.kept, numbered.room⟩

theorem lbd_run_keeps_numbers_two : ∃ final,
    Run LbdSystem.register LbdSystem.Fits (LbdSystem.boot fun _ => 0) [0x5000, 0x6000] final ∧
      final.Kept := by
  obtain ⟨final, run, -⟩ : ∃ final, Run LbdSystem.register LbdSystem.Fits
      (LbdSystem.boot fun _ => 0) [0x5000, 0x6000] final ∧ True :=
    Run.exists_of_execute (fun _ => True) (by decide +kernel)
  exact ⟨final, run, (lbd_run_keeps_numbers _ _ _ run).1⟩

/-- The 257th drive is accepted under number 0 and takes the place of the first. -/
theorem lbd_run_redirects : ∃ final,
    Run LbdSystem.register (fun _ drive => drive ≠ 0) (LbdSystem.boot fun _ => 0)
      (List.range' 1 257) final ∧
    final.accepted.length = 257 ∧
    final.lbd.driveNo 1 = 0 ∧ final.lbd.driveNo 257 = 0 ∧ final.lbd.lbdDrives 0 = 257 := by
  exact Run.exists_of_execute
    (fun final : LbdSystem => final.accepted.length = 257 ∧ final.lbd.driveNo 1 = 0 ∧
      final.lbd.driveNo 257 = 0 ∧ final.lbd.lbdDrives 0 = 257) (by decide +kernel)

end LbdSystem

end Fesos
