/-
What kfree reads off an address.

Runs of region allocations with the sizes that the callers of the region allocator
compute, for any arguments of theirs, and of frees.  As long as a replenishment is
not given a page that holds nodes, every region stays aligned, kmalloc's large path
returns multiples of 4096, and the blocks of a bucket page never are.
-/

import Fesos.VmaAlignment

set_option autoImplicit false

namespace Fesos

open Library

/-! ### Callers of the region allocator -/

/-- What the callers of `vma_allocate_memory_from_ktree` pass, from their own
arguments. -/
inductive RegionRequest where
  | kmallocLarge (size : Nat)
  | bucketPage
  | kmapMmio (physicalAddress size : Nat) (flag : MmioFlags)
  | scatterDma (pageCount : Nat)
  deriving DecidableEq, Repr

namespace RegionRequest

def size : RegionRequest → Nat
  | .kmallocLarge size => roundToPages size
  | .bucketPage => 4096
  | .kmapMmio physicalAddress size _ => mmioSize physicalAddress size
  | .scatterDma pageCount => scatterSize pageCount

def type : RegionRequest → VmNodeType
  | .kmallocLarge _ => .regular
  | .bucketPage => .regular
  | .kmapMmio _ _ _ => .hardwareMmio
  | .scatterDma _ => .unmanagedMapping

def flags : RegionRequest → Nat
  | .kmallocLarge _ => slabFlags
  | .bucketPage => slabFlags
  | .kmapMmio _ _ flag => flag.vmmFlags
  | .scatterDma _ => 0

/-- `VMA_TREE_KMMIO` is 1. -/
def backing : RegionRequest → Option VmaBacking
  | .kmallocLarge _ => none
  | .bucketPage => none
  | .kmapMmio physicalAddress _ _ => some ⟨physicalAddress / 4096 * 4096, 0⟩
  | .scatterDma _ => some ⟨1, 0⟩

def tree : RegionRequest → KTree
  | .kmallocLarge _ => .heap
  | .bucketPage => .heap
  | .kmapMmio _ _ _ => .mmio
  | .scatterDma _ => .mmio

theorem servingTree_eq (request : RegionRequest) :
    Vma.servingTree request.type request.backing = .ok request.tree := by
  cases request with
  | kmallocLarge size => rfl
  | bucketPage => rfl
  | kmapMmio physicalAddress size flag => rfl
  | scatterDma pageCount => rfl

/-- Every caller asks for whole pages, also when its size wraps. -/
theorem size_aligned (request : RegionRequest) : request.size % 4096 = 0 := by
  cases request with
  | kmallocLarge size => exact roundToPages_aligned size
  | bucketPage => rfl
  | kmapMmio physicalAddress size flag => exact Nat.mul_mod_left _ 4096
  | scatterDma pageCount =>
    apply VmaSequences.word_aligned
    exact Nat.mul_mod_left pageCount 4096

end RegionRequest

inductive RegionCall where
  | allocate (request : RegionRequest) (answer second : TreeAnswer)
  | free (startAddr : Nat) (answer : TreeAnswer)
  deriving DecidableEq, Repr

namespace VmaSequences

instance (vma : VmaSequences) (answer : TreeAnswer) (tree : KTree) :
    Decidable (vma.Answers answer tree) :=
  inferInstanceAs (Decidable (answer.found = 0 ∨ answer.found ∈ vma.order tree))

instance (vma : VmaSequences) (second : TreeAnswer) : Decidable (vma.KeepsSlab second) :=
  inferInstanceAs (Decidable (wordSub vma.freeNodeCount 1 < minimumAvailableNodes →
    vma.startOf second.found ∉ vma.slabPages))

def step (vma : VmaSequences) : RegionCall → Except Fault VmaSequences
  | .allocate request answer second => do
    let granted ← vmaAllocateMemoryFromKtree answer second request.size request.type
      request.flags request.backing vma
    pure granted.2
  | .free startAddr answer => vmaFreeMemoryFromKtree answer startAddr vma

def Recorded (vma : VmaSequences) (startAddr : Nat) : Prop :=
  (∃ node ∈ vma.order .heap, vma.startOf node = startAddr) ∨
    ∃ node ∈ vma.order .mmio, vma.startOf node = startAddr

instance (vma : VmaSequences) (startAddr : Nat) : Decidable (vma.Recorded startAddr) :=
  inferInstanceAs (Decidable ((∃ node ∈ vma.order .heap, vma.startOf node = startAddr) ∨
    ∃ node ∈ vma.order .mmio, vma.startOf node = startAddr))

/-- Searches lead into the tree they are made in, and only starts of regions are
given back. -/
def Admissible (vma : VmaSequences) : RegionCall → Prop
  | .allocate request answer second =>
    vma.Answers answer request.tree ∧ vma.Answers second .heap
  | .free startAddr answer =>
    vma.Recorded startAddr ∧ vma.Answers answer (Vma.owningTree startAddr)

instance (vma : VmaSequences) : ∀ call, Decidable (vma.Admissible call)
  | .allocate request answer second =>
    inferInstanceAs (Decidable (vma.Answers answer request.tree ∧ vma.Answers second .heap))
  | .free startAddr answer =>
    inferInstanceAs (Decidable
      (vma.Recorded startAddr ∧ vma.Answers answer (Vma.owningTree startAddr)))

/-- A replenishment during the call is not given a page that holds nodes. -/
def SparesSlab (vma : VmaSequences) : RegionCall → Prop
  | .allocate _ _ second => vma.KeepsSlab second
  | .free _ _ => True

instance (vma : VmaSequences) : ∀ call, Decidable (vma.SparesSlab call)
  | .allocate _ _ second => inferInstanceAs (Decidable (vma.KeepsSlab second))
  | .free _ _ => inferInstanceAs (Decidable True)

def AtRest (vma : VmaSequences) : Prop :=
  ∃ chain, minimumAvailableNodes ≤ chain.length ∧ vma.Tidy false chain []

section Calls

variable {vma after : VmaSequences}

theorem AtRest.allocate (request : RegionRequest) {answer second : TreeAnswer} {result : Nat}
    (rest : vma.AtRest) (answers : vma.Answers answer request.tree)
    (secondAnswers : vma.Answers second .heap) (keeps : vma.KeepsSlab second)
    (allocated : vmaAllocateMemoryFromKtree answer second request.size request.type request.flags
      request.backing vma = .ok (result, after)) :
    after.AtRest ∧ result % 4096 = 0 := by
  obtain ⟨chain, enough, tidy⟩ := rest
  unfold vmaAllocateMemoryFromKtree at allocated
  rw [request.servingTree_eq, ok_bind] at allocated
  obtain ⟨extended, isResult⟩ := allocate_extends tidy enough request.size_aligned answers
    (allocVmDsNode_extends tidy enough secondAnswers keeps) allocated
  exact ⟨extended.tidy, allocate_aligned tidy isResult⟩

theorem AtRest.free {startAddr : Nat} {answer : TreeAnswer} (rest : vma.AtRest)
    (answers : vma.Answers answer (Vma.owningTree startAddr))
    (freed : vmaFreeMemoryFromKtree answer startAddr vma = .ok after) : after.AtRest := by
  obtain ⟨chain, enough, tidy⟩ := rest
  unfold vmaFreeMemoryFromKtree at freed
  unfold Vma.owningTree at answers
  by_cases inHeap : kernelHeapStart ≤ startAddr ∧ startAddr < kernelHeapLimit
  · rw [if_pos inHeap] at freed
    rw [if_pos inHeap.1] at answers
    obtain ⟨newChain, longer, newTidy⟩ := free_tidy tidy answers freed
    exact ⟨newChain, Nat.le_trans enough longer, newTidy⟩
  rw [if_neg inHeap] at freed
  by_cases inMmio : kernelMmioStart ≤ startAddr ∧ startAddr < kernelMmioLimit
  · rw [if_pos inMmio] at freed
    have below : ¬ kernelHeapStart ≤ startAddr := by
      have order : kernelMmioLimit ≤ kernelHeapStart := by decide
      omega
    rw [if_neg below] at answers
    obtain ⟨newChain, longer, newTidy⟩ := free_tidy tidy answers freed
    exact ⟨newChain, Nat.le_trans enough longer, newTidy⟩
  · rw [if_neg inMmio] at freed
    cases freed
    exact ⟨chain, enough, tidy⟩

theorem AtRest.step {call : RegionCall} (rest : vma.AtRest) (legal : vma.Admissible call)
    (spares : vma.SparesSlab call) (stepped : vma.step call = .ok after) : after.AtRest := by
  cases call with
  | allocate request answer second =>
    obtain ⟨⟨result, granted⟩, allocated, isAfter⟩ := bind_eq_ok stepped
    cases isAfter
    exact (rest.allocate request legal.1 legal.2 spares allocated).1
  | free startAddr answer => exact rest.free legal.2 stepped

end Calls

/-- The region allocator as kmalloc calls it, with the answers of one call. -/
def sequenceSource (answer second : TreeAnswer) : RegionSource VmaSequences where
  allocate := fun size =>
    vmaAllocateMemoryFromKtree answer second size .regular slabFlags none
  touch := fun _ vma => .ok vma
  free := fun startAddr => vmaFreeMemoryFromKtree answer startAddr

end VmaSequences

/-! ### Pointers of the two paths -/

namespace Kmalloc

open VmaSequences

/-- A bucket page: its blocks are chained, all of them lie in the page behind its
descriptor, and none is at the start of a page. -/
structure BucketPage (heap : Kmalloc VmaSequences) (index page : Nat) : Prop where
  aligned : page % 4096 = 0
  trail : Trail heap.links (heap.pages page).freeList (blocksOf page (bucketSizeOf index))
  inside : ∀ block ∈ blocksOf page (bucketSizeOf index),
    page < block ∧ block + bucketSizeOf index ≤ page + 4096 ∧ block % 4096 ≠ 0

theorem bucketPage_of_aligned {heap : Kmalloc VmaSequences} {index page : Nat}
    (bounded : index < 7) (size : (heap.buckets index).bucketSize = bucketSizeOf index)
    (aligned : page % 4096 = 0) (touched : VmaSequences) :
    BucketPage ((heap.preparePage index page touched).pushFront .free index page) index page where
  aligned := aligned
  trail := by
    have same := pushFront_relinked .free index page (heap.preparePage index page touched)
    rw [same.links, same.pages page]
    exact preparePage_trail heap page touched bounded size
  inside := by
    intro block member
    have place := mem_blocksOf bounded member
    have positive : 0 < descriptorSize := by decide
    have offset := (pageOf_block bounded aligned member).2
    constructor
    · omega
    · exact ⟨by omega, offset⟩

end Kmalloc

namespace VmaSequences

open Kmalloc

def mixedCalls : List RegionCall :=
  [.allocate (.kmallocLarge 5000) ⟨kernelHeapStart + 88, 2⟩ ⟨kernelHeapStart + 88, 2⟩,
    .allocate (.kmapMmio 0xFEE00010 4096 .default) ⟨kernelHeapStart + 88 * 2, 1⟩
      ⟨kernelHeapStart + 88 * 3, 3⟩,
    .allocate (.scatterDma 2) ⟨kernelHeapStart + 88 * 4, 2⟩ ⟨kernelHeapStart + 88 * 3, 3⟩,
    .free (kernelHeapStart + 4096) ⟨kernelHeapStart + 88, 0⟩]

/-- The answers of a worst-fit search and of an insertion behind the starts that
are not greater. -/
def Searched (vma : VmaSequences) (answer : TreeAnswer) (tree : KTree) (size : Nat) : Prop :=
  answer.found ∈ vma.order tree ∧ vma.isFree answer.found = true ∧
    (∀ other ∈ vma.order tree, vma.isFree other = true →
      (vma.regions other).size ≤ (vma.regions answer.found).size) ∧
    (∀ other ∈ (vma.order tree).take answer.position,
      vma.startOf other ≤ word (vma.startOf answer.found + size)) ∧
    ∀ other ∈ (vma.order tree).drop answer.position,
      word (vma.startOf answer.found + size) < vma.startOf other

instance (vma : VmaSequences) (answer : TreeAnswer) (tree : KTree) (size : Nat) :
    Decidable (vma.Searched answer tree size) :=
  inferInstanceAs (Decidable (_ ∧ _ ∧ _ ∧ _ ∧ _))

def Expected (vma : VmaSequences) : RegionCall → Prop
  | .allocate request answer second =>
    vma.Searched answer request.tree request.size ∧ vma.Searched second .heap 4096
  | .free _ _ => True

instance (vma : VmaSequences) : ∀ call, Decidable (vma.Expected call)
  | .allocate request answer second => inferInstanceAs (Decidable
      (vma.Searched answer request.tree request.size ∧ vma.Searched second .heap 4096))
  | .free _ _ => inferInstanceAs (Decidable True)

/-- A request of 2^64 - 4096 bytes leaves a free region that starts at the first slab
page; mappings then use up the nodes. -/
def wrappingCalls : List RegionCall :=
  .allocate (.kmallocLarge (2 ^ 64 - 4096)) ⟨kernelHeapStart + 88, 1⟩ ⟨kernelHeapStart + 88, 2⟩ ::
    (List.range 38).map (fun index => .allocate (.kmapMmio 0xFEE00000 4096 .default)
      ⟨kernelHeapStart + 88 * (if index = 0 then 2 else index + 3), index + 1⟩
      ⟨kernelHeapStart + 88 * 3, 3⟩)

end VmaSequences

end Fesos
