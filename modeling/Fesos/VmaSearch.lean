/-
What vm_avl_comp_addr is good for.

The comparator returns the difference of two addresses as an int, so its sign is
that of the difference only up to 2 GiB, and two addresses 4 GiB apart compare as
equal.  A lookup is right exactly when the comparisons on the way to each region
single out the one that starts at the address, an insertion exactly when the
comparisons on the way to the place of the new region have the right sign.
-/

import Fesos.AvlWellFormed
import Fesos.Vma

set_option autoImplicit false

namespace Fesos

open BinaryTree
open List hiding nil

/-! ### Insertion along a way down -/

section Descent

variable {goesLeft truth : Nat → Bool} {new : Nat} {shape : BinaryTree Nat}

theorem insertTree_congr (same : ∀ pointer ∈ shape.descent truth, goesLeft pointer = truth pointer) :
    insertTree goesLeft new shape = insertTree truth new shape := by
  induction shape with
  | nil => rfl
  | node pointer left right leftIh rightIh =>
    simp only [descent, forall_mem_cons] at same
    simp only [insertTree]
    rw [same.1]
    cases side : truth pointer with
    | true =>
      rw [side] at same
      rw [if_pos rfl, if_pos rfl, leftIh same.2]
    | false =>
      rw [side] at same
      rw [if_neg (by decide), if_neg (by decide), rightIh same.2]

/-- Where the new node has landed tells which turns were taken. -/
theorem descent_of_increasing {key : Nat → Nat}
    (increasing : (insertTree goesLeft new shape).inorder.Pairwise
      (fun first second => key first < key second)) :
    ∀ pointer ∈ shape.descent (fun pointer => decide (key new < key pointer)),
      goesLeft pointer = decide (key new < key pointer) := by
  induction shape with
  | nil => nofun
  | node pointer left right leftIh rightIh =>
    simp only [insertTree] at increasing
    have inLeft := (insertTree_perm goesLeft new left).mem_iff.mpr mem_cons_self
    have inRight := (insertTree_perm goesLeft new right).mem_iff.mpr mem_cons_self
    simp only [descent, forall_mem_cons]
    cases side : goesLeft pointer with
    | true =>
      rw [side, if_pos rfl, rebalance_inorder, inorder_node, pairwise_append] at increasing
      have before := increasing.2.2 new inLeft pointer mem_cons_self
      rw [if_pos (decide_eq_true before)]
      exact ⟨(decide_eq_true before).symm, leftIh increasing.1⟩
    | false =>
      rw [side, if_neg (by decide), rebalance_inorder, inorder_node, pairwise_append,
        pairwise_cons] at increasing
      have behind := Nat.not_lt_of_gt (increasing.2.1.1 new inRight)
      rw [if_neg (fun before => behind (of_decide_eq_true before))]
      exact ⟨(decide_eq_false behind).symm, rightIh increasing.2.1.2⟩

end Descent

namespace AvlStore

variable {store : AvlStore VmRegion Nat} {shape : BinaryTree Nat} {fuel startAddr new : Nat}

def Increasing (store : AvlStore VmRegion Nat) (shape : BinaryTree Nat) : Prop :=
  shape.inorder.Pairwise
    (fun first second => (store.data first).startAddr < (store.data second).startAddr)

instance (store : AvlStore VmRegion Nat) (shape : BinaryTree Nat) :
    Decidable (store.Increasing shape) :=
  inferInstanceAs (Decidable (List.Pairwise _ _))

theorem Increasing.distinct (increasing : store.Increasing shape) : shape.inorder.Nodup := by
  apply increasing.imp
  intro first second before same
  rw [same] at before
  exact Nat.lt_irrefl _ before

theorem Increasing.eq_of_start (increasing : store.Increasing shape) {first second : Nat}
    (firstIn : first ∈ shape.inorder) (secondIn : second ∈ shape.inorder)
    (same : (store.data first).startAddr = (store.data second).startAddr) : first = second := by
  have apart : (shape.inorder.map (fun node => (store.data node).startAddr)).Nodup :=
    pairwise_map.mpr (increasing.imp (fun before => Nat.ne_of_lt before))
  exact inj_on_of_nodup_map apart firstIn secondIn same

/-! ### Lookup -/

/-- `avl_get_node` returns the node that starts at the address, NULL without one. -/
def FindsStart (store : AvlStore VmRegion Nat) (shape : BinaryTree Nat) (fuel startAddr : Nat) :
    Prop :=
  ∃ found, avlGetNode (fun store node => vmAvlCompAddr startAddr (store.data node)) fuel
      (rootOf shape) store = .ok found ∧
    (found ∈ shape.inorder ∧ (store.data found).startAddr = startAddr ∨
      found = 0 ∧ ∀ node ∈ shape.inorder, (store.data node).startAddr ≠ startAddr)

/-- Of the regions that the comparisons above them point to, the one that starts at
the address is there and is the only one to compare equal. -/
def SinglesOut (store : AvlStore VmRegion Nat) (shape : BinaryTree Nat) (startAddr : Nat) : Prop :=
  ∀ node ∈ shape.inorder,
    shape.Reached (fun node => vmAvlCompAddr startAddr (store.data node)) node ∧
        vmAvlCompAddr startAddr (store.data node) = 0 ↔
      (store.data node).startAddr = startAddr

instance (store : AvlStore VmRegion Nat) (shape : BinaryTree Nat) (startAddr : Nat) :
    Decidable (store.SinglesOut shape startAddr) :=
  inferInstanceAs (Decidable (∀ node ∈ shape.inorder, _))

theorem findsStart_iff (linked : store.Linked 0 shape) (increasing : store.Increasing shape)
    (enough : shape.height < fuel) :
    store.FindsStart shape fuel startAddr ↔ store.SinglesOut shape startAddr := by
  unfold FindsStart SinglesOut
  simp only [avlGetNode_search _ linked enough, ← search_eq_some_iff]
  constructor
  · rintro ⟨found, run, right⟩ node member
    cases outcome : shape.search (fun node => vmAvlCompAddr startAddr (store.data node)) with
    | none =>
      rw [outcome] at run
      cases run
      rcases right with ⟨present, _⟩ | ⟨_, absent⟩
      · exact absurd rfl (linked.ne_zero present)
      · exact iff_of_false nofun (absent node member)
    | some result =>
      rw [outcome] at run
      cases run
      rcases right with ⟨present, start⟩ | ⟨isNull, _⟩
      · constructor
        · intro same
          cases same
          exact start
        · intro nodeStart
          exact congrArg some (increasing.eq_of_start present member (start.trans nodeStart.symm))
      · exact absurd isNull (linked.ne_zero (search_some outcome).1)
  · intro singles
    refine ⟨_, rfl, ?_⟩
    cases outcome : shape.search (fun node => vmAvlCompAddr startAddr (store.data node)) with
    | none =>
      right
      refine ⟨rfl, ?_⟩
      intro node member start
      have found := (singles node member).mpr start
      rw [outcome] at found
      cases found
    | some result =>
      left
      have member := (search_some outcome).1
      exact ⟨member, (singles result member).mp outcome⟩

/-! ### Insertion -/

def KeepsIncreasing (store : AvlStore VmRegion Nat) (shape : BinaryTree Nat) (fuel new : Nat) :
    Prop :=
  ∃ after result, avlInsert vmCallbacks (vmAvlCompAddr (store.data new).startAddr) fuel
      (rootOf shape) new (store.avlInit new vmAvlUpdateAddress) = .ok (rootOf result, after) ∧
    after.Linked 0 result ∧ result.inorder.Perm (new :: shape.inorder) ∧
    after.data = store.data ∧ after.Increasing result

/-- On the way to the place of the new region each comparison has the right sign. -/
def Separates (store : AvlStore VmRegion Nat) (shape : BinaryTree Nat) (startAddr : Nat) : Prop :=
  ∀ node ∈ shape.descent (fun node => decide (startAddr < (store.data node).startAddr)),
    0 < vmAvlCompAddr startAddr (store.data node) ↔ startAddr < (store.data node).startAddr

instance (store : AvlStore VmRegion Nat) (shape : BinaryTree Nat) (startAddr : Nat) :
    Decidable (store.Separates shape startAddr) :=
  inferInstanceAs (Decidable (∀ node ∈ shape.descent _, _))

def placed (store : AvlStore VmRegion Nat) (shape : BinaryTree Nat) (new : Nat) : BinaryTree Nat :=
  insertTree (fun node =>
    decide (vmAvlCompAddr (store.data new).startAddr (store.data node) > 0)) new shape

section

variable (linked : store.Linked 0 shape) (distinct : shape.inorder.Nodup)
  (depths : store.DepthsExact shape)
  (callable : ∀ node ∈ shape.inorder, store.Callable vmCallbacks node) (nonzero : new ≠ 0)
  (fresh : new ∉ shape.inorder) (enough : shape.height ≤ fuel)

include linked distinct depths callable nonzero fresh enough

theorem avlInsert_placed :
    ∃ after, avlInsert vmCallbacks (vmAvlCompAddr (store.data new).startAddr) fuel (rootOf shape)
        new (store.avlInit new vmAvlUpdateAddress) = .ok (rootOf (store.placed shape new), after) ∧
      after.Linked 0 (store.placed shape new) ∧ after.data = store.data := by
  obtain ⟨leaf, top, installed⟩ :=
    avlInit_freshLeaf store (fun _ _ _ _ => True) vmAvlUpdateAddress nonzero trivial
  unfold avlInsert
  by_cases empty : shape = nil
  · rw [empty, rootOf_nil, if_pos rfl]
    refine ⟨_, rfl, ?_, avlInit_data store new _⟩
    have single := leaf.linked
    rw [top] at single
    exact single
  · obtain ⟨begun, settled, update⟩ :=
      avlInit_tree vmAvlUpdateAddress nonzero fresh linked depths
    have ready : ∀ pointer ∈ new :: shape.inorder,
        (store.avlInit new vmAvlUpdateAddress).Ready vmCallbacks (fun _ _ _ _ => True) pointer := by
      intro pointer member
      apply Callable.ready
      unfold Callable
      rcases mem_cons.mp member with isNew | old
      · rw [isNew, installed]
        exact Or.inr ⟨vmAvlUpdate, rfl⟩
      · rw [update pointer old]
        exact callable pointer old
    obtain ⟨after, run, afterLinked, _, same⟩ := avlInsertRec_inserts
      (vmAvlCompAddr (store.data new).startAddr) shape (store.avlInit new vmAvlUpdateAddress) 0 fuel
      empty enough begun (nodup_cons.mpr ⟨fresh, distinct⟩) leaf ready (settled.off _)
    rw [avlInit_data] at run afterLinked
    rw [if_neg (linked.root_ne_zero empty)]
    exact ⟨after, run, afterLinked, same.data.trans (avlInit_data store new _)⟩

theorem keepsIncreasing_iff_placed :
    store.KeepsIncreasing shape fuel new ↔ store.Increasing (store.placed shape new) := by
  obtain ⟨after, run, placedLinked, data⟩ :=
    avlInsert_placed linked distinct depths callable nonzero fresh enough
  constructor
  · rintro ⟨_, result, otherRun, resultLinked, _, _, increasing⟩
    rw [run] at otherRun
    obtain ⟨sameRoot, rfl⟩ := Prod.mk.inj (Except.ok.inj otherRun)
    have isPlaced := resultLinked.unique placedLinked sameRoot.symm
    rw [isPlaced, Increasing, data] at increasing
    exact increasing
  · intro increasing
    refine ⟨after, _, run, placedLinked, insertTree_perm _ new shape, data, ?_⟩
    rw [Increasing, data]
    exact increasing

end

section

variable (increasing : store.Increasing shape)
  (unused : ∀ node ∈ shape.inorder, (store.data node).startAddr ≠ (store.data new).startAddr)

include increasing unused

/-- Taking the turns the addresses ask for, a region lands in its place. -/
theorem increasing_of_truth :
    store.Increasing (insertTree
      (fun node => decide ((store.data new).startAddr < (store.data node).startAddr)) new shape) := by
  have preorder : TotalPreorder
      (fun first second : VmRegion => (first.startAddr : Int) - second.startAddr) :=
    ⟨fun first second => by omega, fun first second third => by omega⟩
  have sorted := increasing.imp (S := fun first second =>
    ((store.data first).startAddr : Int) - (store.data second).startAddr ≤ 0) (by omega)
  obtain ⟨front, back, split, frontLow, backHigh⟩ :=
    sorted_split preorder store.data (store.data new) sorted
  have order := insertTree_inorder
    (fun node => decide ((store.data new).startAddr < (store.data node).startAddr)) new shape split
    (fun node member => decide_eq_false (by have low := frontLow node member; omega))
    (fun node member => decide_eq_true (by have high := backHigh node member; omega))
  unfold Increasing at increasing ⊢
  rw [split, pairwise_append] at increasing
  obtain ⟨frontOrder, backOrder, across⟩ := increasing
  rw [order, pairwise_append, pairwise_cons]
  refine ⟨frontOrder, ⟨?_, backOrder⟩, ?_⟩
  · intro node member
    have high := backHigh node member
    omega
  · intro node inFront other inRest
    rcases mem_cons.mp inRest with isNew | inBack
    · have low := frontLow node inFront
      have different := unused node (by rw [split]; exact mem_append_left _ inFront)
      rw [isNew]
      omega
    · exact across node inFront other inBack

theorem placed_increasing_iff :
    store.Increasing (store.placed shape new) ↔
      store.Separates shape (store.data new).startAddr := by
  constructor
  · intro stays node onWay
    have turn := descent_of_increasing stays node onWay
    rw [decide_eq_decide] at turn
    exact turn
  · intro separates
    have same : store.placed shape new = insertTree
        (fun node => decide ((store.data new).startAddr < (store.data node).startAddr)) new shape := by
      apply insertTree_congr
      intro node onWay
      rw [decide_eq_decide]
      exact separates node onWay
    rw [same]
    exact increasing_of_truth increasing unused

end

/-! ### Both uses of the comparator -/

def heapRegions (shape : BinaryTree Nat) (distances : List Nat) : AvlStore VmRegion Nat :=
  holding shape vmAvlUpdateAddress
    (fun node =>
      { startAddr := kernelHeapStart + distances.getD node 0
        size := 4096
        type := .regular
        flags := 0
        backing := ⟨0, 0⟩ })
    (fun _ => 0)

def closeRegions : AvlStore VmRegion Nat := heapRegions threeNodes [0, 0, 4096, 16384, 8192]

end AvlStore

end Fesos
