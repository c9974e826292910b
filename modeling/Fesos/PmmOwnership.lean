/-
Frame ownership across whole runs of the physical memory manager.

The live blocks are kept beside the manager as the caller knows them: an
address and a count for every allocation that has not been freed.  Every run of
allocations with any 64-bit arguments and frees of live blocks keeps the bitmap
equal to the initially used frames and the live blocks, without overlap.
-/

import Fesos.Library.Runs
import Fesos.PmmScan

set_option autoImplicit false

namespace Fesos

open Library

structure Block where
  address : Nat
  count : Nat
  deriving DecidableEq, Repr

def Block.Owns (block : Block) (frame : Nat) : Prop :=
  block.address / 4096 ≤ frame ∧ frame < block.address / 4096 + block.count

def Block.Apart (left right : Block) : Prop :=
  ∀ frame, ¬ (left.Owns frame ∧ right.Owns frame)

instance : Std.Symm Block.Apart :=
  ⟨fun _left _right apart frame both => apart frame ⟨both.2, both.1⟩⟩

structure PmmSystem where
  pmm : Pmm
  live : List Block

inductive PmmCall where
  | allocate (count alignment : UInt64)
  | free (block : Block)

def PmmSystem.step (system : PmmSystem) : PmmCall → Except Fault PmmSystem
  | .allocate count alignment =>
    let result := system.pmm.pmmAllocateFrames count.toNat alignment.toNat
    .ok
      { pmm := result.2
        live := if result.1 = 0 then system.live
          else { address := result.1, count := count.toNat } :: system.live }
  | .free block =>
    match system.pmm.pmmFreeFrames block.address block.count with
    | .ok pmm => .ok { pmm := pmm, live := system.live.erase block }
    | .error fault => .error fault

/-- Any allocation is allowed; a free names a block returned earlier and not yet
freed. -/
def PmmSystem.Admissible (system : PmmSystem) : PmmCall → Prop
  | .allocate _ _ => True
  | .free block => block ∈ system.live

structure Ownership (initial : Pmm) (system : PmmSystem) : Prop where
  size : system.pmm.bitmapSizeFrames = initial.bitmapSizeFrames
  exactly : ∀ frame < initial.bitmapSizeFrames,
    system.pmm.used frame = true ↔
      initial.used frame = true ∨ ∃ block ∈ system.live, block.Owns frame
  disjoint : system.live.Pairwise Block.Apart
  handedOut : ∀ block ∈ system.live, ∀ frame, block.Owns frame →
    frame < initial.bitmapSizeFrames ∧ initial.used frame = false
  nonempty : ∀ block ∈ system.live, 0 < block.count ∧
    block.address / 4096 + block.count ≤ initial.bitmapSizeFrames

theorem Ownership.start (initial : Pmm) :
    Ownership initial { pmm := initial, live := [] } :=
  { size := rfl
    exactly := by intro frame _inside; simp
    disjoint := List.Pairwise.nil
    handedOut := by intro block member; cases member
    nonempty := by intro block member; cases member }

/-- Either NULL comes back and the manager is untouched, or a run of free frames
was found and claimed. -/
theorem pmmAllocateFrames_cases (pmm : Pmm) (count alignment : Nat)
    (alignmentWord : alignment < 2 ^ 64) :
    pmm.pmmAllocateFrames count alignment = (0, pmm) ∨
      ∃ start, 0 < count ∧ pmm.RunFree start count ∧
        pmm.pmmAllocateFrames count alignment = (start * 4096, pmm.claim start count) := by
  by_cases empty : count = 0
  · left
    unfold PmmOf.pmmAllocateFrames
    rw [if_pos empty]
  have outcome := pmm.pmmAllocateFrames_outcome count alignment (by decide) (by omega) alignmentWord
  generalize answer : pmm.pmmAllocateFrames count alignment = result at outcome
  cases outcome with
  | found start _later _aligned free _least =>
    exact Or.inr ⟨start, by omega, free, rfl⟩
  | exhausted _nothing => exact Or.inl rfl

variable {initial : Pmm} {system : PmmSystem}

section

variable (owned : Ownership initial system)

include owned

theorem Ownership.allocate (start count : Nat)
    (countPositive : 0 < count) (free : system.pmm.RunFree start count) :
    Ownership initial
      { pmm := system.pmm.claim start count
        live := { address := start * 4096, count := count } :: system.live } := by
  have startFrame : start * 4096 / 4096 = start := Nat.mul_div_cancel start (by decide)
  have inside : start + count ≤ initial.bitmapSizeFrames := owned.size ▸ free.1
  have freshFrame : ∀ frame, start ≤ frame → frame < start + count →
      initial.used frame = false ∧ ∀ block ∈ system.live, ¬ block.Owns frame := by
    intro frame lower upper
    have clear := free.2 frame lower upper
    have view := owned.exactly frame (by omega)
    rw [clear] at view
    constructor
    · cases initially : initial.used frame with
      | false => rfl
      | true => exact absurd (view.mpr (Or.inl initially)) (by decide)
    · intro block member owns
      exact absurd (view.mpr (Or.inr ⟨block, member, owns⟩)) (by decide)
  refine
    { size := (PmmOf.claim_size _ _ _).trans owned.size
      exactly := ?_
      disjoint := ?_
      handedOut := ?_
      nonempty := ?_ }
  · intro frame inRange
    simp only [PmmOf.claim_used, Bool.or_eq_true, decide_eq_true_eq, List.mem_cons,
      exists_eq_or_imp, Block.Owns, startFrame]
    rw [owned.exactly frame inRange]
    simp only [Block.Owns]
    exact or_left_comm
  · apply List.pairwise_cons.mpr
    refine ⟨?_, owned.disjoint⟩
    intro block member frame both
    obtain ⟨⟨lower, upper⟩, ownsOld⟩ := both
    simp only [startFrame] at lower upper
    exact (freshFrame frame lower upper).2 block member ownsOld
  · intro block member frame owns
    rcases List.mem_cons.mp member with same | old
    · subst block
      obtain ⟨lower, upper⟩ := owns
      simp only [startFrame] at lower upper
      exact ⟨by omega, (freshFrame frame lower upper).1⟩
    · exact owned.handedOut block old frame owns
  · intro block member
    rcases List.mem_cons.mp member with same | old
    · subst block
      simp only [startFrame]
      exact ⟨countPositive, inside⟩
    · exact owned.nonempty block old

/-- Removing one block from a list of pairwise disjoint, nonempty blocks leaves
exactly the other blocks' frames. -/
theorem Ownership.mem_erase (block other : Block) :
    other ∈ system.live.erase block ↔ other ∈ system.live ∧ other ≠ block := by
  have distinct : system.live.Nodup := by
    refine List.Pairwise.imp_of_mem ?_ owned.disjoint
    intro left right leftMember _rightMember apart same
    subst right
    have positive := (owned.nonempty left leftMember).1
    exact apart (left.address / 4096) ⟨⟨Nat.le_refl _, by omega⟩, ⟨Nat.le_refl _, by omega⟩⟩
  rw [List.Nodup.mem_erase_iff distinct]
  exact and_comm

/-- Freeing a live block returns and gives back exactly its frames. -/
theorem Ownership.free (block : Block) (member : block ∈ system.live) :
    ∃ after, system.pmm.pmmFreeFrames block.address block.count = .ok after ∧
      Ownership initial { pmm := after, live := system.live.erase block } := by
  obtain ⟨positive, fits⟩ := owned.nonempty block member
  have bound := initial.framesBound
  have notZero : block.count ≠ 0 := by omega
  have finalExact : word (block.address / 4096 + block.count) =
      block.address / 4096 + block.count := word_of_lt (by omega)
  have inRange : ¬ system.pmm.bitmapSizeFrames < block.address / 4096 + block.count := by
    rw [owned.size]
    omega
  obtain ⟨after, released, size, _ram, bits⟩ :=
    system.pmm.release_ok (block.address / 4096) block.count (by
      intro frame lower upper
      exact (owned.exactly frame (by omega)).mpr (Or.inr ⟨block, member, lower, upper⟩))
  refine ⟨after, ?_, ?_⟩
  · unfold PmmOf.pmmFreeFrames
    rw [if_neg notZero]
    simp only [finalExact, if_neg inRange, Nat.add_sub_cancel_left]
    exact released
  · have apart : ∀ other ∈ system.live, other ≠ block →
        other.Apart block := by
      intro other otherMember different
      exact owned.disjoint.forall otherMember member different
    refine
      { size := size.trans owned.size
        exactly := ?_
        disjoint := owned.disjoint.sublist List.erase_sublist
        handedOut := ?_
        nonempty := ?_ }
    · intro frame inFrames
      rw [bits frame, Bool.and_eq_true, decide_eq_true_eq, owned.exactly frame inFrames]
      constructor
      · rintro ⟨outside, initially | ⟨other, otherMember, owns⟩⟩
        · exact Or.inl initially
        · refine Or.inr ⟨other, (owned.mem_erase block other).mpr ⟨otherMember, ?_⟩, owns⟩
          intro same
          rw [same] at owns
          exact outside owns
      · rintro (initially | ⟨other, otherMember, owns⟩)
        · refine ⟨?_, Or.inl initially⟩
          intro inside
          rw [(owned.handedOut block member frame inside).2] at initially
          cases initially
        · obtain ⟨old, different⟩ := (owned.mem_erase block other).mp otherMember
          refine ⟨?_, Or.inr ⟨other, old, owns⟩⟩
          intro inside
          exact apart other old different frame ⟨owns, inside⟩
    · intro other otherMember
      exact owned.handedOut other ((owned.mem_erase block other).mp otherMember).1
    · intro other otherMember
      exact owned.nonempty other ((owned.mem_erase block other).mp otherMember).1

/-- Frame 0 stays used, so a run that was found never starts at address 0. -/
theorem Ownership.start_ne_zero (frameZero : initial.used 0 = true)
    {start count : Nat} (countPositive : 0 < count)
    (free : system.pmm.RunFree start count) : start * 4096 ≠ 0 := by
  intro zero
  have startZero : start = 0 := by omega
  subst start
  have clear := free.2 0 (Nat.le_refl _) (by omega)
  have usedZero := (owned.exactly 0 initial.framesPositive).mpr (Or.inl frameZero)
  rw [clear] at usedZero
  cases usedZero

theorem Ownership.step (frameZero : initial.used 0 = true)
    (call : PmmCall) (legal : system.Admissible call) :
    ∃ next, system.step call = .ok next ∧ Ownership initial next := by
  cases call with
  | allocate count alignment =>
    rcases pmmAllocateFrames_cases system.pmm count.toNat alignment.toNat
        alignment.toNat_lt with refused | ⟨start, positive, free, answer⟩
    · refine ⟨system, ?_, owned⟩
      simp only [PmmSystem.step, refused, if_true]
    · refine ⟨_, ?_, owned.allocate start count.toNat positive free⟩
      simp only [PmmSystem.step, answer,
        if_neg (owned.start_ne_zero frameZero positive free)]
  | free block =>
    obtain ⟨after, released, kept⟩ := owned.free block legal
    refine ⟨_, ?_, kept⟩
    simp only [PmmSystem.step, released]

end

theorem Ownership.of_run (frameZero : initial.used 0 = true)
    {calls : List PmmCall} {final : PmmSystem}
    (run : Run PmmSystem.step PmmSystem.Admissible { pmm := initial, live := [] } calls final) :
    Ownership initial final := by
  apply run.invariant (Ownership initial) (Ownership.start initial)
  intro system call next before legal returned
  obtain ⟨after, stepped, kept⟩ := before.step frameZero call legal
  rw [stepped] at returned
  cases returned
  exact kept

/-- Over every run: the used frames are the initially used ones and the live
blocks, live blocks are disjoint and were never initially used, NULL comes back
only when nothing was taken, and no call of the run can reach a panic. -/
theorem pmm_run_ownership (initial : Pmm) (frameZero : initial.used 0 = true)
    (calls : List PmmCall) (final : PmmSystem)
    (run : Run PmmSystem.step PmmSystem.Admissible { pmm := initial, live := [] }
      calls final) :
    Ownership initial final ∧
      (∀ count alignment : UInt64,
        (final.pmm.pmmAllocateFrames count.toNat alignment.toNat).1 = 0 →
          (final.pmm.pmmAllocateFrames count.toNat alignment.toNat).2 = final.pmm) ∧
      ∀ call, final.Admissible call → ∃ next, final.step call = .ok next := by
  have owned := Ownership.of_run frameZero run
  refine ⟨owned, ?_, ?_⟩
  · intro count alignment null
    rcases pmmAllocateFrames_cases final.pmm count.toNat alignment.toNat
        alignment.toNat_lt with refused | ⟨start, positive, free, answer⟩
    · rw [refused]
    · rw [answer] at null
      exact absurd null (owned.start_ne_zero frameZero positive free)
  · intro call legal
    obtain ⟨next, stepped, _kept⟩ := owned.step frameZero call legal
    exact ⟨next, stepped⟩

def eightFrames : Pmm :=
  { bitmap := fun index => if index = 0 then 1 else 0
    bitmapSizeFrames := 8
    memoryTotalFrameCount := 8
    memoryUsedFrameCount := 1
    ram := fun _ _ => PageTableEntry.zero
    totalFrames := rfl
    framesPositive := by decide
    framesBound := by decide }

theorem pmm_run_ownership_eightFrames :
    ∃ final, final.live = [{ address := 0x2000, count := 2 }] ∧
      Run PmmSystem.step PmmSystem.Admissible { pmm := eightFrames, live := [] }
        [.allocate 2 0x2000] final ∧
      Ownership eightFrames final := by
  have run : Run PmmSystem.step PmmSystem.Admissible { pmm := eightFrames, live := [] }
      [.allocate 2 0x2000] _ := .cons _ trivial rfl (.nil _)
  exact ⟨_, by decide, run, (pmm_run_ownership eightFrames (by decide) _ _ run).1⟩

end Fesos
