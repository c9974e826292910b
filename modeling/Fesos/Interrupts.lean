/-
Page faults during the runs of the virtual memory allocator.

`_start` registers `vmm_page_fault_callback` for vector 14.
-/

import Fesos.VmaFault
import Fesos.VmaRuns

set_option autoImplicit false

namespace Fesos

open BinaryTree Library Vma VmaSystem

structure InterruptFrame where
  cr2 : Nat
  interruptNumber : Fin 256
  errorCode : Nat

/-- `none` is a PANIC. -/
abbrev IsrT := InterruptFrame → Vma → Except Fault (Option Vma)

def isrRegisterInterruptHandler (table : Fin 256 → Option IsrT) (interruptNum : Fin 256)
    (handler : IsrT) : Fin 256 → Option IsrT :=
  Function.update table interruptNum (some handler)

def handleInterrupt (table : Fin 256 → Option IsrT) : IsrT := fun intFrame vma =>
  match table intFrame.interruptNumber with
  | some handler => handler intFrame vma
  | none => .ok none

def vmmPageFaultCallback : IsrT := fun iframe vma =>
  let isPresent := iframe.errorCode % 2
  if isPresent = 0 then do
    let paged ← vmaDemandPaging iframe.cr2 vma
    pure (if paged.1 = 0 then some paged.2 else none)
  else .ok none

def kernelHandlers : Fin 256 → Option IsrT :=
  isrRegisterInterruptHandler (fun _ => none) 14 vmmPageFaultCallback

theorem Vma.HeapTree.served_iff {vma : Vma} {shape : BinaryTree Nat} (heap : vma.HeapTree shape)
    (enough : shape.height < treeFuel) (address : Nat) :
    ∃ result vmm, vmaDemandPaging address vma = .ok (result, { vma with vmm := vmm }) ∧
      (result = 0 ↔ vma.Pageable shape address) := by
  rw [vmaDemandPaging_within]
  rcases heap.demandPaging_eq enough address with ⟨node, member, covered, run⟩ | ⟨nowhere, run⟩
  · by_cases regular : (vma.region node).type = .regular
    · rw [serveFault_regular (heap.linked.ne_zero member) regular] at run
      exact ⟨0, _, run, iff_of_true rfl ⟨node, member, regular, covered⟩⟩
    · rw [serveFault_irregular regular] at run
      refine ⟨1, vma.vmm, run, iff_of_false (by decide) ?_⟩
      rintro ⟨other, otherMember, otherRegular, otherCovered⟩
      have found := (heap.search_iff other).mpr ⟨otherMember, otherCovered⟩
      rw [(heap.search_iff node).mpr ⟨member, covered⟩] at found
      cases found
      exact regular otherRegular
  · refine ⟨1, vma.vmm, run, iff_of_false (by decide) ?_⟩
    rintro ⟨node, member, -, covered⟩
    exact nowhere node member covered

end Fesos
