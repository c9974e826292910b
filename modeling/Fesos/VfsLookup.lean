/-
Lookups over the node cache, and runs of lookups, opens and closes.

A lookup ends at its start, at a node of the tree or at NULL.  What neither a
lookup nor a close keeps is that the nodes of the tree are allocated: both free a
node without taking it out of the tree.  So the tree stays intact in the runs that
free no node.
-/

import Fesos.VfsCache

set_option autoImplicit false

namespace Fesos

open BinaryTree Library

namespace Vfs

/-! ### Lookups -/

/-- No directory that the walk leaves has a reference count of 0, so that none is
freed. -/
def Spared (drivers : VfsDrivers) (path : List Char) : Nat → Nat → Nat → Vfs → Prop
  | 0, _, _, _ => True
  | fuel + 1, currentNode, left, vfs =>
    if componentSeen left (componentEnd path left) then
      ∀ found ∈ (vfsFinddir drivers currentNode
          (some ((path.drop left).take (componentEnd path left - left))) vfs).toOption,
        found.2.refCount currentNode ≠ 0 ∧
          (found.1 ≠ 0 → Spared drivers path fuel found.1 (componentEnd path left + 1) found.2)
    else currentNode ≠ 0 →
      Spared drivers path fuel currentNode (componentEnd path left + 1) vfs

instance decidableSpared (drivers : VfsDrivers) (path : List Char) :
    ∀ (fuel currentNode left : Nat) (vfs : Vfs),
      Decidable (Spared drivers path fuel currentNode left vfs)
  | 0, _, _, _ => isTrue trivial
  | fuel + 1, currentNode, left, vfs =>
    have := decidableSpared drivers path fuel
    inferInstanceAs (Decidable (if componentSeen left (componentEnd path left) then
      ∀ found ∈ (vfsFinddir drivers currentNode
          (some ((path.drop left).take (componentEnd path left - left))) vfs).toOption,
        found.2.refCount currentNode ≠ 0 ∧
          (found.1 ≠ 0 → Spared drivers path fuel found.1 (componentEnd path left + 1) found.2)
    else currentNode ≠ 0 →
      Spared drivers path fuel currentNode (componentEnd path left + 1) vfs))

def SparesLookup (drivers : VfsDrivers) (path : Option (List Char)) (vfs : Vfs) : Prop :=
  ∀ given ∈ path, pathAt given 0 = '/' →
    Spared drivers given (given.length + 1) vfs.rootNode 1 vfs

instance (drivers : VfsDrivers) (path : Option (List Char)) (vfs : Vfs) :
    Decidable (vfs.SparesLookup drivers path) :=
  inferInstanceAs (Decidable (∀ given ∈ path, pathAt given 0 = '/' →
    Spared drivers given (given.length + 1) vfs.rootNode 1 vfs))

section Lookups

variable {vfs after : Vfs} {shape : BinaryTree Nat} {drivers : VfsDrivers}
  {found current : Nat} {path name : List Char}

/-- What a lookup does to the tree and where it ends.  Without frees the heap only
grows. -/
structure LookedUp (before after : Vfs) (shape result : BinaryTree Nat) (start found : Nat)
    (spared : Prop) : Prop where
  grown : Grown before after shape result
  ends : found = 0 ∨ found = start ∨ found ∈ result.inorder
  allocated : spared → before.allocated ⊆ after.allocated
  live : spared → shape.inorder ⊆ before.allocated → result.inorder ⊆ after.allocated

theorem lookedUp_here (ordered : vfs.Ordered shape) (stocked : vfs.Stocked shape) (spared : Prop)
    (ends : found = 0 ∨ found = current) :
    ∃ result, LookedUp vfs vfs shape result current found spared :=
  ⟨shape, Grown.refl ordered stocked, ends.imp_right Or.inl, fun _ _ member => member,
    fun _ live => live⟩

theorem descend_lookedUp (ordered : vfs.Ordered shape) (stocked : vfs.Stocked shape)
    (run : descend drivers current name vfs = .ok (found, after)) :
    current ≠ 0 ∧ ∃ middle result, vfsFinddir drivers current (some name) vfs = .ok (found, middle) ∧
      LookedUp vfs after shape result current found (middle.refCount current ≠ 0) ∧
      (middle.refCount current ≠ 0 → after = middle) := by
  obtain ⟨⟨other, middle⟩, finding, rest⟩ := bind_eq_ok run
  obtain ⟨result, grown, ends, allocated, live⟩ := vfsFinddir_grown ordered stocked finding
  dsimp only at rest
  split at rest
  · cases rest
  rename_i real
  refine ⟨real, ?_⟩
  split at rest
  · rename_i unused
    cases rest
    refine ⟨middle, result, finding, ⟨grown.kfree current, ends.imp_right Or.inr, ?_, ?_⟩, ?_⟩
    · exact fun kept => absurd unused kept
    · exact fun kept => absurd unused kept
    · exact fun kept => absurd unused kept
  · cases rest
    exact ⟨_, result, finding, ⟨grown, ends.imp_right Or.inr, fun _ => allocated, fun _ => live⟩,
      fun _ => rfl⟩

theorem LookedUp.imp {before : Vfs} {result : BinaryTree Nat} {spared other : Prop}
    (looked : LookedUp before after shape result current found spared) (spares : other → spared) :
    LookedUp before after shape result current found other :=
  ⟨looked.grown, looked.ends, fun holds => looked.allocated (spares holds),
    fun holds => looked.live (spares holds)⟩

theorem LookedUp.trans {before middle after : Vfs} {shape between result : BinaryTree Nat}
    {start reached found : Nat} {first second both : Prop}
    (left : LookedUp before middle shape between start reached first)
    (right : LookedUp middle after between result reached found second)
    (firstSpared : both → first) (secondSpared : both → second) :
    LookedUp before after shape result start found both where
  grown := left.grown.trans right.grown
  ends := by
    rcases right.ends with isNull | isReached | inTree
    · exact Or.inl isNull
    · rw [isReached]
      exact left.ends.imp_right (fun either => either.imp_right (fun member => right.grown.kept member))
    · exact Or.inr (Or.inr inTree)
  allocated := fun spared _ member =>
    right.allocated (secondSpared spared) (left.allocated (firstSpared spared) member)
  live := fun spared live =>
    right.live (secondSpared spared) (left.live (firstSpared spared) live)

theorem lookupFrom_lookedUp (fuel : Nat) {left : Nat} (ordered : vfs.Ordered shape)
    (stocked : vfs.Stocked shape)
    (run : lookupFrom drivers path fuel current left vfs = .ok (found, after)) :
    ∃ result, LookedUp vfs after shape result current found
      (Spared drivers path fuel current left vfs) := by
  induction fuel generalizing current left vfs shape with
  | zero => cases run
  | succ fuel ih =>
    rw [lookupFrom] at run
    dsimp only at run
    by_cases seen : componentSeen left (componentEnd path left)
    · rw [if_pos seen] at run
      obtain ⟨⟨reached, middle⟩, descending, rest⟩ := bind_eq_ok run
      obtain ⟨_, spared, between, finding, first, same⟩ :=
        descend_lookedUp ordered stocked descending
      have spares : Spared drivers path (fuel + 1) current left vfs →
          spared.refCount current ≠ 0 ∧ (reached ≠ 0 →
            Spared drivers path fuel reached (componentEnd path left + 1) spared) := by
        intro whole
        rw [Spared, if_pos seen] at whole
        exact whole (reached, spared) (by rw [finding]; rfl)
      dsimp only at rest
      split at rest
      · rename_i isNull
        cases rest
        rw [isNull] at first
        exact ⟨between, first.imp (fun whole => (spares whole).1)⟩
      rename_i real
      split at rest
      · cases rest
        exact ⟨between, first.imp (fun whole => (spares whole).1)⟩
      obtain ⟨result, second⟩ := ih first.grown.ordered first.grown.stocked rest
      refine ⟨result, first.trans second (fun whole => (spares whole).1) ?_⟩
      intro whole
      rw [same (spares whole).1]
      exact (spares whole).2 real
    · rw [if_neg seen] at run
      change (if current = 0 then pure (0, vfs)
        else if pathAt path (componentEnd path left) = nul then pure (current, vfs)
        else lookupFrom drivers path fuel current (componentEnd path left + 1) vfs) = _ at run
      split at run
      · cases run
        exact lookedUp_here ordered stocked _ (Or.inl rfl)
      rename_i real
      split at run
      · cases run
        exact lookedUp_here ordered stocked _ (Or.inr rfl)
      obtain ⟨result, looked⟩ := ih ordered stocked run
      have spares : Spared drivers path (fuel + 1) current left vfs →
          Spared drivers path fuel current (componentEnd path left + 1) vfs := by
        intro whole
        rw [Spared, if_neg seen] at whole
        exact whole real
      exact ⟨result, looked.imp spares⟩

theorem vfsLookup_lookedUp {path : Option (List Char)} (ordered : vfs.Ordered shape)
    (stocked : vfs.Stocked shape) (run : vfsLookup drivers path vfs = .ok (found, after)) :
    ∃ result, LookedUp vfs after shape result vfs.rootNode found
      (vfs.SparesLookup drivers path) := by
  unfold vfsLookup at run
  cases path with
  | none =>
    cases run
    exact lookedUp_here ordered stocked _ (Or.inl rfl)
  | some given =>
    dsimp only at run
    split at run
    · cases run
      exact lookedUp_here ordered stocked _ (Or.inl rfl)
    split at run
    · rename_i absolute
      obtain ⟨result, looked⟩ := lookupFrom_lookedUp _ ordered stocked run
      have spares : vfs.SparesLookup drivers (some given) →
          Spared drivers given (given.length + 1) vfs.rootNode 1 vfs :=
        fun whole => whole given rfl absolute
      exact ⟨result, looked.imp spares⟩
    · cases run
      exact lookedUp_here ordered stocked _ (Or.inl rfl)

end Lookups

/-! ### Opens and closes -/

section Counts

variable {vfs after : Vfs} {shape : BinaryTree Nat} {drivers : VfsDrivers} {node : Nat}

theorem Recounted.key (same : Recounted vfs after) (node : Nat) :
    (after.node node).key = (vfs.node node).key := by
  rw [same.fields node]
  rfl

theorem Recounted.ordered (same : Recounted vfs after) (ordered : vfs.Ordered shape) :
    after.Ordered shape :=
  ordered.congr same.links same.key same.treeRoot

theorem Recounted.stocked (same : Recounted vfs after) (stocked : vfs.Stocked shape) :
    after.Stocked shape :=
  stocked.congr same.supply

theorem vfsClose_recounted {result : Option Int} (real : node ≠ 0)
    (kept : vfs.refCount node ≠ UInt32.ofNat (vfs.share node node))
    (closed : vfsClose drivers node vfs = .ok (result, after)) : Recounted vfs after := by
  unfold vfsClose at closed
  rw [if_neg real] at closed
  obtain ⟨released, isReleased, rest⟩ := bind_eq_ok closed
  obtain ⟨same, _, counts⟩ := release_ok isReleased
  have used : ¬ released.refCount node = 0 := by
    intro zero
    have count := counts node
    rw [zero, UInt32.zero_add] at count
    exact kept count.symm
  rw [if_neg used] at rest
  cases rest
  exact same

end Counts

end Vfs

/-! ### Runs -/

inductive VfsCall where
  | lookup (drivers : VfsDrivers) (path : Option (List Char))
  | file (call : VfsFileCall)

namespace VfsSession

open Vfs

def call (session : VfsSession) : VfsCall → Except Fault VfsSession
  | .lookup drivers path => do
    let found ← vfsLookup drivers path session.vfs
    pure { session with vfs := found.2 }
  | .file fileCall => session.step fileCall

/-- Lookups are free; opens and closes are of live nodes, a close of an open one. -/
def Legal (session : VfsSession) : VfsCall → Prop
  | .lookup _ _ => True
  | .file fileCall => session.Admissible fileCall

instance (session : VfsSession) : ∀ call, Decidable (session.Legal call)
  | .lookup _ _ => isTrue trivial
  | .file fileCall => inferInstanceAs (Decidable (session.Admissible fileCall))

/-- The call frees no node: a lookup leaves no directory without references, and a
close does not take the last one. -/
def Spares (session : VfsSession) : VfsCall → Prop
  | .lookup drivers path => session.vfs.SparesLookup drivers path
  | .file (.openNode _ _) => True
  | .file (.closeNode _ closed) =>
    session.vfs.refCount closed ≠ UInt32.ofNat (session.vfs.share closed closed)

instance (session : VfsSession) : ∀ call, Decidable (session.Spares call)
  | .lookup drivers path => inferInstanceAs (Decidable (session.vfs.SparesLookup drivers path))
  | .file (.openNode _ _) => isTrue trivial
  | .file (.closeNode _ closed) => inferInstanceAs (Decidable
      (session.vfs.refCount closed ≠ UInt32.ofNat (session.vfs.share closed closed)))

end VfsSession

namespace Vfs

/-- `vfs_tree` is a finite search tree of allocated nodes with one node for a key. -/
def TreeIntact (vfs : Vfs) : Prop :=
  ∃ shape, vfs.treeRoot = rootOf shape ∧ vfs.nodes.Linked 0 shape ∧
    shape.inorder ⊆ vfs.allocated ∧ shape.inorder.Pairwise (fun first second =>
      vfsCompare (vfs.node first).key (vfs.node second).key < 0)

structure Intact (vfs : Vfs) (shape : BinaryTree Nat) : Prop where
  ordered : vfs.Ordered shape
  stocked : vfs.Stocked shape
  live : shape.inorder ⊆ vfs.allocated
  root : vfs.rootNode ∈ vfs.allocated

theorem Intact.tree {vfs : Vfs} {shape : BinaryTree Nat} (intact : vfs.Intact shape) :
    vfs.TreeIntact :=
  ⟨shape, intact.ordered.rooted, intact.ordered.linked, intact.live, intact.ordered.sorted⟩

theorem Intact.recounted {vfs after : Vfs} {shape : BinaryTree Nat} (intact : vfs.Intact shape)
    (same : Recounted vfs after) : after.Intact shape where
  ordered := same.ordered intact.ordered
  stocked := same.stocked intact.stocked
  live := by
    rw [same.allocated]
    exact intact.live
  root := by
    rw [same.allocated, same.rootNode]
    exact intact.root

theorem Intact.lookedUp {vfs after : Vfs} {shape : BinaryTree Nat} {drivers : VfsDrivers}
    {path : Option (List Char)} {found : Nat} (intact : vfs.Intact shape)
    (spares : vfs.SparesLookup drivers path)
    (run : vfsLookup drivers path vfs = .ok (found, after)) :
    (∃ result, after.Intact result) ∧ (found = 0 ∨ found ∈ after.allocated) := by
  obtain ⟨result, looked⟩ := vfsLookup_lookedUp intact.ordered intact.stocked run
  have live := looked.live spares intact.live
  have root := looked.allocated spares intact.root
  refine ⟨⟨result, looked.grown.ordered, looked.grown.stocked, live, ?_⟩, ?_⟩
  · rw [looked.grown.rootNode]
    exact root
  · rcases looked.ends with isNull | isRoot | inTree
    · exact Or.inl isNull
    · rw [isRoot]
      exact Or.inr root
    · exact Or.inr (live inTree)

end Vfs

namespace VfsSession

open Vfs

theorem call_intact {session next : VfsSession} {vfsCall : VfsCall} {shape : BinaryTree Nat}
    (intact : session.vfs.Intact shape) (legal : session.Legal vfsCall)
    (spares : session.Spares vfsCall) (returned : session.call vfsCall = .ok next) :
    ∃ result, next.vfs.Intact result := by
  cases vfsCall with
  | lookup drivers path =>
    obtain ⟨⟨found, after⟩, looking, isNext⟩ := bind_eq_ok returned
    cases isNext
    exact (intact.lookedUp spares looking).1
  | file fileCall =>
    cases fileCall with
    | openNode drivers node =>
      obtain ⟨⟨status, after⟩, opened, isNext⟩ := bind_eq_ok returned
      cases isNext
      exact ⟨shape, intact.recounted (vfsOpen_ok legal.1 opened).recounted⟩
    | closeNode drivers node =>
      obtain ⟨⟨result, after⟩, closed, isNext⟩ := bind_eq_ok returned
      cases isNext
      exact ⟨shape, intact.recounted (vfsClose_recounted legal.1 spares closed)⟩

/-- A driver whose directories all have the entry "a" and take any other name for
their second entry. -/
def plainDrivers : VfsDrivers := fun _ =>
  { close := none
    openNode := none
    finddir := some (fun _ name => ⟨if name = ['a'] then 2 else 3, .directory, 1⟩)
    readdir := none }

def clearedBlock (address : Nat) (count : UInt32) : VfsBlock :=
  { address := address
    parent := 0
    left := 0
    right := 0
    subtreeMaxDepth := 0
    update := 0
    content := ⟨[], 0, .file, count, 0, 0, 0⟩ }

def freshVfs (count : UInt32) : Vfs :=
  { nodes :=
      { parent := fun _ => 0
        left := fun _ => 0
        right := fun _ => 0
        subtreeMaxDepth := fun _ => 0
        update := fun _ => 0
        data := fun address =>
          if address = 256 then ⟨[], 1, .directory, 1, 256, 0, 1⟩ else ⟨[], 0, .file, 0, 0, 0, 0⟩
        summary := fun _ => () }
    treeRoot := 0
    rootNode := 256
    supply := [clearedBlock 512 count, clearedBlock 768 count]
    allocated := [256]
    trace := [] }

def twoComponents : List Char := ['/', 'a', '/', 'b']

end VfsSession

end Fesos
