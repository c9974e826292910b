/-
Runs of the kernel's allocation and free calls.

`VmaSystem` adds the ranges handed out to the state.  A call is safe when the
comparison of addresses, which is cut to `int`, has the right sign where the call
uses it, when the region search does not lead to a region that is too small, when
no split needs a replenishment of the tree being split, and when the nodes a free
removes can be detached.  From `vma_init` on, safe calls keep the regions of both
trees a tiling and all owned ranges apart.
-/

import Fesos.VmaInit
import Fesos.VmmMap
import Fesos.Library.Runs

set_option autoImplicit false

namespace Fesos

open BinaryTree Library
open List hiding nil

namespace Vma

def shapes (vma : Vma) : Shapes := fun tree => vma.nodes.tree treeFuel (vma.root tree)

theorem Sound.shapes_eq {goal : SummaryGoal VmRegion Nat} {vma : Vma}
    {shape : Shapes} {chain loose : List Nat} (sound : vma.Sound goal shape chain loose) :
    vma.shapes = shape := by
  funext tree
  have tall := height_le_length (shape tree)
  have short := sound.geometry.short tree
  unfold shapes
  rw [sound.layout.rooted]
  exact (sound.layout.linked tree).tree_eq (by omega)

end Vma

inductive VmaCall where
  | allocate (size : Nat) (type : VmNodeType) (flags : Nat) (backing : Option VmaBacking)
  | free (startAddr : Nat)
  deriving Repr

structure VmaSystem where
  vma : Vma
  live : List Vma.OwnedRange

namespace VmaSystem

open Vma

def call (system : VmaSystem) : VmaCall → Except Fault VmaSystem
  | .allocate size type flags backing => do
    let tree ← servingTree type backing
    let granted ← vmaAllocateMemoryFromKtree size type flags backing system.vma
    pure
      { vma := granted.2
        live := if granted.1 = 0 then system.live else ⟨tree, granted.1, size⟩ :: system.live }
  | .free startAddr => do
    let freed ← vmaFreeMemoryFromKtree startAddr system.vma
    pure
      { vma := freed
        live := system.live.eraseP (fun range => range.start = startAddr) }

/-- Requests of whole pages that some free region of the tree can hold, and frees
of live ranges. -/
def Admissible (system : VmaSystem) : VmaCall → Prop
  | .allocate size type _ backing =>
    0 < size ∧ size % 4096 = 0 ∧ ∀ tree ∈ (servingTree type backing).toOption,
      ∃ node ∈ (system.vma.shapes tree).inorder, (system.vma.region node).type = .free ∧
        size ≤ system.vma.sizeOf node
  | .free startAddr => ∃ range ∈ system.live, range.start = startAddr

instance (system : VmaSystem) : ∀ call, Decidable (system.Admissible call)
  | .allocate size type _ backing =>
    inferInstanceAs (Decidable (0 < size ∧ size % 4096 = 0 ∧
      ∀ tree ∈ (servingTree type backing).toOption,
        ∃ node ∈ (system.vma.shapes tree).inorder, (system.vma.region node).type = .free ∧
          size ≤ system.vma.sizeOf node))
  | .free startAddr =>
    inferInstanceAs (Decidable (∃ range ∈ system.live, range.start = startAddr))

/-- The condition on the state before a call under which the call does what it
should.  `exempt` are the addresses whose cached maximum need not be exact. -/
def Safe (exempt : Nat → Prop) (system : VmaSystem) : VmaCall → Prop
  | .allocate size type flags backing => type ≠ .free →
      ∀ tree ∈ (servingTree type backing).toOption,
        system.vma.SafeAllocate exempt system.vma.shapes tree size type flags
  | .free startAddr =>
    system.vma.SafeFree exempt (system.vma.shapes (owningTree startAddr)) startAddr

instance (exempt : Nat → Prop) [DecidablePred exempt] (system : VmaSystem) :
    ∀ call, Decidable (system.Safe exempt call)
  | .allocate size type flags backing =>
    inferInstanceAs (Decidable (type ≠ .free → ∀ tree ∈ (servingTree type backing).toOption,
      system.vma.SafeAllocate exempt system.vma.shapes tree size type flags))
  | .free startAddr =>
    inferInstanceAs (Decidable
      (system.vma.SafeFree exempt (system.vma.shapes (owningTree startAddr)) startAddr))

/-! ### One call -/

section Calls

variable {system next : VmaSystem} {shape : Shapes} {chain : List Nat} {exempt : Nat → Prop}

section

variable (steady : system.vma.Steady exempt shape chain system.live)

include steady

theorem allocate_keeps {size flags : Nat} {type : VmNodeType} {backing : Option VmaBacking}
    (legal : system.Admissible (.allocate size type flags backing))
    (safe : system.Safe exempt (.allocate size type flags backing))
    (returned : system.call (.allocate size type flags backing) = .ok next) :
    ∃ newShape newChain, next.vma.Steady exempt newShape newChain next.live := by
  obtain ⟨positive, whole, _⟩ := legal
  simp only [call, vmaAllocateMemoryFromKtree] at returned
  cases serving : servingTree type backing with
  | error fault =>
    rw [serving] at returned
    cases returned
  | ok tree =>
    simp only [serving, ok_bind] at returned
    cases run : vmaAllocateMemoryFromTree tree size type flags backing system.vma with
    | error fault =>
      rw [run] at returned
      cases returned
    | ok granted =>
      obtain ⟨start, after⟩ := granted
      rw [run, ok_bind] at returned
      cases returned
      by_cases busy : type = .free
      · unfold vmaAllocateMemoryFromTree vmaAllocateMemoryFromTreeWith at run
        rw [if_pos busy] at run
        cases run
        exact ⟨shape, chain, steady⟩
      have served : system.vma.SafeAllocate exempt shape tree size type flags := by
        have here := safe busy tree (by rw [serving]; rfl)
        rw [steady.sound.shapes_eq] at here
        exact here
      rcases allocate_steady steady busy positive whole served run with
        ⟨zero, same⟩ | ⟨nonzero, granted⟩
      · rw [if_pos zero, same]
        exact ⟨shape, chain, steady⟩
      · rw [if_neg nonzero]
        exact granted

theorem owningTree_eq {tree : KTree} {start size : Nat}
    (member : ⟨tree, start, size⟩ ∈ system.live) :
    owningTree start = tree ∧
      vmaFreeMemoryFromKtree start system.vma = vmaFreeMemoryFromTree tree start system.vma := by
  obtain ⟨node, inTree, startIs, _⟩ := (steady.accounts.inUse tree start size).mpr
    (mem_append_left _ member)
  have room := steady.sound.geometry.bounds inTree
  rw [startIs] at room
  unfold owningTree vmaFreeMemoryFromKtree
  cases tree with
  | heap =>
    simp only [treeStart, treeLimit] at room
    rw [if_pos room.1, if_pos ⟨room.1, by omega⟩]
    exact ⟨rfl, rfl⟩
  | mmio =>
    simp only [treeStart, treeLimit] at room
    have apart : kernelMmioLimit < kernelHeapStart := by decide
    rw [if_neg (by omega), if_neg (by omega), if_pos ⟨room.1, by omega⟩]
    exact ⟨rfl, rfl⟩

theorem free_keeps {startAddr : Nat}
    (legal : system.Admissible (.free startAddr)) (safe : system.Safe exempt (.free startAddr))
    (returned : system.call (.free startAddr) = .ok next) :
    ∃ newShape newChain, next.vma.Steady exempt newShape newChain next.live := by
  obtain ⟨_, member, startIs⟩ := legal
  obtain ⟨range, front, back, _, rangeStart, split, erased⟩ :=
    exists_of_eraseP (p := fun range => decide (range.start = startAddr)) member
      (decide_eq_true startIs)
  have owned : system.live.Perm (range :: (front ++ back)) := by
    rw [split]
    exact perm_middle
  obtain ⟨tree, start, size⟩ := range
  have isStart : start = startAddr := of_decide_eq_true rangeStart
  rw [isStart] at owned
  obtain ⟨owning, freeing⟩ := owningTree_eq steady (owned.mem_iff.mpr mem_cons_self)
  simp only [call] at returned
  rw [freeing] at returned
  obtain ⟨freed, run, returned⟩ := bind_eq_ok returned
  cases returned
  change system.vma.SafeFree exempt (system.vma.shapes (owningTree startAddr)) startAddr at safe
  rw [owning, steady.sound.shapes_eq] at safe
  rw [erased]
  exact free_steady steady owned safe run

end

theorem call_keeps {call : VmaCall}
    (steady : ∃ shape chain, system.vma.Steady exempt shape chain system.live)
    (legal : system.Admissible call) (safe : system.Safe exempt call)
    (returned : system.call call = .ok next) :
    ∃ shape chain, next.vma.Steady exempt shape chain next.live := by
  obtain ⟨shape, chain, steady⟩ := steady
  cases call with
  | allocate size type flags backing => exact allocate_keeps steady legal safe returned
  | free startAddr => exact free_keeps steady legal safe returned

end Calls

def ranges (system : VmaSystem) : List OwnedRange := system.live ++ system.vma.slabRanges

end VmaSystem

namespace Vma

def Separate (ranges : List OwnedRange) : Prop :=
  ranges.Pairwise (fun left right =>
    left.start + left.size ≤ right.start ∨ right.start + right.size ≤ left.start)

instance (ranges : List OwnedRange) : Decidable (Separate ranges) :=
  inferInstanceAs (Decidable (ranges.Pairwise (fun left right =>
    left.start + left.size ≤ right.start ∨ right.start + right.size ≤ left.start)))

def Tiled (vma : Vma) : Prop :=
  ∀ tree, Tiles vma.startOf vma.sizeOf (treeLimit tree) (treeStart tree) (vma.shapes tree).inorder

section Steady

variable {vma : Vma} {shape : Shapes} {chain : List Nat} {live : List OwnedRange}
  {exempt : Nat → Prop}

theorem Steady.tiled (steady : vma.Steady exempt shape chain live) : vma.Tiled := by
  unfold Tiled
  rw [steady.sound.shapes_eq]
  exact steady.sound.geometry.tiles

/-- Different ranges in use do not meet. -/
theorem Geometry.apart (geometry : vma.Geometry shape) {left right : OwnedRange}
    (leftUsed : vma.InUse shape left.tree left.start left.size)
    (rightUsed : vma.InUse shape right.tree right.start right.size) (different : left ≠ right) :
    left.start + left.size ≤ right.start ∨ right.start + right.size ≤ left.start := by
  obtain ⟨leftTree, leftStart, leftSize⟩ := left
  obtain ⟨rightTree, rightStart, rightSize⟩ := right
  obtain ⟨leftNode, leftIn, leftStartIs, leftSizeIs, _⟩ := leftUsed
  obtain ⟨rightNode, rightIn, rightStartIs, rightSizeIs, _⟩ := rightUsed
  simp only at *
  have leftRoom := geometry.bounds leftIn
  have rightRoom := geometry.bounds rightIn
  by_cases same : leftTree = rightTree
  · by_contra meet
    have together : leftNode = rightNode := by
      rw [same] at leftIn
      exact (geometry.tiles rightTree).eq_of_overlap leftIn rightIn (max leftStart rightStart)
        (by omega) (by omega)
    rw [together] at leftStartIs leftSizeIs
    exact different (by rw [same, ← leftStartIs, ← leftSizeIs, rightStartIs, rightSizeIs])
  · have gap : treeLimit .mmio < treeStart .heap := by decide
    cases leftTree <;> cases rightTree
    · exact absurd rfl same
    · exact Or.inr (by omega)
    · exact Or.inl (by omega)
    · exact absurd rfl same

theorem Steady.separate (steady : vma.Steady exempt shape chain live) :
    Separate (live ++ vma.slabRanges) := by
  refine List.Pairwise.imp_of_mem ?_ steady.accounts.once
  intro left right leftIn rightIn different
  exact steady.sound.geometry.apart ((steady.accounts.inUse _ _ _).mpr leftIn)
    ((steady.accounts.inUse _ _ _).mpr rightIn) different

theorem Steady.exempting (steady : vma.Steady (fun _ => False) shape chain live)
    (exempt : Nat → Prop) : vma.Steady exempt shape chain live :=
  ⟨⟨steady.sound.layout, steady.sound.geometry, fun tree =>
      (steady.sound.settled tree).weaken (fun _ _ _ _ _ met => Or.inr (met.resolve_left id))⟩,
    steady.accounts, steady.stocked, steady.calm⟩

end Steady

end Vma

namespace VmaSystem

open Vma

theorem run_keeps {exempt : Nat → Prop} {vmm : Vmm} {initial : Vma} {calls : List VmaCall}
    {final : VmaSystem} (started : vmaInit vmm = .ok initial)
    (run : Run call (fun system call => system.Admissible call ∧ system.Safe exempt call)
      ⟨initial, []⟩ calls final) :
    ∃ shape chain, final.vma.Steady exempt shape chain final.live := by
  obtain ⟨vma, shape, chain, built, steady⟩ := vmaInit_steady vmm
  rw [started] at built
  cases built
  exact run.invariant (fun system => ∃ shape chain,
      system.vma.Steady exempt shape chain system.live)
    ⟨shape, chain, steady.exempting exempt⟩
    (fun _ _ _ kept legal returned => call_keeps kept legal.1 legal.2 returned)

/-- A run from `vma_init` found by executing it. -/
theorem exists_run (vmm : Vmm) (calls : List VmaCall) (legal : VmaSystem → VmaCall → Prop)
    [∀ system call, Decidable (legal system call)] (property : VmaSystem → Prop)
    [DecidablePred property]
    (executed : ((vmaInit vmm).toOption.bind (fun initial =>
      Run.execute call legal ⟨initial, []⟩ calls)).any (fun final => decide (property final)) = true) :
    ∃ initial final, vmaInit vmm = .ok initial ∧ Run call legal ⟨initial, []⟩ calls final ∧
      property final := by
  apply Run.exists_started (fun initial : Vma => (⟨initial, []⟩ : VmaSystem)) property
  exact executed

/-- A mapping that is handed out, a second region, and the first one given back. -/
def smallRun : List VmaCall :=
  [.allocate 4096 .unmanagedMapping 0 (some ⟨1, 0⟩), .allocate 8192 .regular 0x61 none,
    .free kernelMmioStart]

/-- Two mappings of 4 GiB; freeing the first gives the second back, since their
distance is zero as an `int`, and the next request overlaps it. -/
def farRun : List VmaCall :=
  [.allocate (2 ^ 32) .unmanagedMapping 0 (some ⟨1, 0⟩),
    .allocate (2 ^ 32) .unmanagedMapping 0 (some ⟨1, 0⟩), .free kernelMmioStart,
    .allocate (2 ^ 32) .unmanagedMapping 0 (some ⟨1, 0⟩)]

end VmaSystem

/-! ### The cached maxima -/

namespace Vma

/-- At every node of either tree, `subtree_max_free_slot` is the largest free region
at or below the node. -/
def SlotsExact (vma : Vma) : Prop :=
  ∀ tree, ∀ node ∈ (vma.shapes tree).inorder,
    vma.nodes.summary node = vma.largestFree (vma.nodes.tree treeFuel node)

section Exact

variable {vma : Vma} {subtree : BinaryTree Nat}

theorem top_largestFree (settled : vma.nodes.Settled (SummaryExact (fun _ => False)) subtree) :
    (vma.nodes.top subtree).getD 0 = vma.largestFree subtree := by
  induction subtree with
  | nil => rfl
  | node pointer left right leftIh rightIh =>
    obtain ⟨_, met, leftSettled, rightSettled⟩ := settled
    have exactly : vma.nodes.summary pointer = vmAvlUpdate (vma.region pointer)
        (vma.nodes.top left) (vma.nodes.top right) := met.resolve_left id
    rw [largestFree_node, ← leftIh leftSettled, ← rightIh rightSettled]
    exact exactly

theorem summary_largestFree {above : Nat} (linked : vma.nodes.Linked above subtree)
    (settled : vma.nodes.Settled (SummaryExact (fun _ => False)) subtree)
    (low : subtree.height ≤ treeFuel) {pointer : Nat} (member : pointer ∈ subtree.inorder) :
    vma.nodes.summary pointer = vma.largestFree (vma.nodes.tree treeFuel pointer) := by
  induction subtree generalizing above with
  | nil => cases member
  | node root left right leftIh rightIh =>
    have whole := linked.tree_eq low
    have here := top_largestFree settled
    obtain ⟨_, _, _, _, leftLinked, rightLinked⟩ := linked
    obtain ⟨_, _, leftSettled, rightSettled⟩ := settled
    simp only [height] at low
    rw [inorder_node, mem_append, mem_cons] at member
    rcases member with inLeft | same | inRight
    · exact leftIh leftLinked leftSettled (by omega) inLeft
    · rw [rootOf_node] at whole
      rw [same, whole, ← here]
      rfl
    · exact rightIh rightLinked rightSettled (by omega) inRight

end Exact

end Vma

namespace VmaSystem

open Vma

/-- One request for the whole MMIO range: its only region is no longer free, but
still counts in its cached maximum. -/
def wholeRun : List VmaCall := [.allocate kernelMmioSize .unmanagedMapping 0 (some ⟨1, 0⟩)]

end VmaSystem

end Fesos
