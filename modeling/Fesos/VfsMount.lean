/-
Mounting and unmounting.

vfs_mount turns the directory at a path into a stub and links it with the root of
the file system both ways.  A lookup of the path still ends at the stub, so
vfs_unmount takes the stub for the mounted root and the root for the stub; the root
is no mountpoint, and the call is refused.
-/

import Fesos.VfsLookup

set_option autoImplicit false

namespace Fesos

open BinaryTree Library

namespace Vfs

/-! ### The stores of vfs_mount -/

/-- `after` is `before` with `mountStub` and `fsRoot` linked, up to counts and the
trace. -/
structure Mounted (before after : Vfs) (mountStub fsRoot : Nat) : Prop where
  links : after.nodes = { before.nodes with data := after.nodes.data }
  fields : ∀ node, after.node node =
    { before.node node with
      type := if node = mountStub then .mountpoint else (before.node node).type
      mountPtr := if node = fsRoot then mountStub
        else if node = mountStub then fsRoot else (before.node node).mountPtr
      refCount := after.refCount node }
  treeRoot : after.treeRoot = before.treeRoot
  rootNode : after.rootNode = before.rootNode
  supply : after.supply = before.supply
  allocated : after.allocated = before.allocated

section Mount

variable {vfs after : Vfs} {shape : BinaryTree Nat} {drivers : VfsDrivers}
  {mountStub fsRoot : Nat} {path : Option (List Char)}

theorem Mounted.key (mounted : Mounted vfs after mountStub fsRoot) (node : Nat) :
    (after.node node).key = (vfs.node node).key := by
  rw [mounted.fields node]
  rfl

theorem Mounted.ordered (mounted : Mounted vfs after mountStub fsRoot)
    (ordered : vfs.Ordered shape) : after.Ordered shape :=
  ordered.congr mounted.links mounted.key mounted.treeRoot

theorem Mounted.stocked (mounted : Mounted vfs after mountStub fsRoot)
    (stocked : vfs.Stocked shape) : after.Stocked shape :=
  stocked.congr mounted.supply

theorem link_mounted (linked : link mountStub fsRoot vfs = .ok after) :
    Mounted vfs after mountStub fsRoot := by
  unfold link at linked
  dsimp only at linked
  obtain ⟨retained, retaining, isAfter⟩ := bind_eq_ok linked
  cases isAfter
  have counted := (retain_ok retaining).1.trans
    (setRefCount_recounted retained fsRoot (retained.refCount fsRoot + 1))
  constructor
  · rw [counted.links]
    rfl
  · intro node
    rw [counted.fields node, setNode_node, setNode_node, setNode_node]
    by_cases isRoot : node = fsRoot
    · rw [if_pos isRoot, if_pos isRoot, ← isRoot]
      by_cases isStub : node = mountStub
      · rw [if_pos isStub, if_pos isStub, ← isStub]
      · rw [if_neg isStub, if_neg isStub]
    rw [if_neg isRoot, if_neg isRoot]
    by_cases isStub : node = mountStub
    · rw [if_pos isStub, if_pos isStub, if_pos isStub, ← isStub]
    · rw [if_neg isStub, if_neg isStub, if_neg isStub]
  · rw [counted.treeRoot]
    rfl
  · rw [counted.rootNode]
    rfl
  · rw [counted.supply]
    rfl
  · rw [counted.allocated]
    rfl

/-- A mount that returns 0 has found a directory and linked it. -/
theorem vfsMount_ok (run : vfsMount drivers path fsRoot vfs = .ok (0, after)) :
    fsRoot ≠ 0 ∧ ∃ mountStub found, vfsLookup drivers path vfs = .ok (mountStub, found) ∧
      mountStub ≠ 0 ∧ (found.node mountStub).type = .directory ∧
      Mounted found after mountStub fsRoot := by
  unfold vfsMount at run
  split at run
  · have status := (Prod.mk.inj (Except.ok.inj run)).1
    exact absurd status (by decide)
  rename_i given
  obtain ⟨nonzero, _⟩ := not_or.mp given
  refine ⟨nonzero, ?_⟩
  obtain ⟨⟨mountStub, found⟩, looking, rest⟩ := bind_eq_ok run
  dsimp only at rest
  split at rest
  · cases rest
  rename_i real
  split at rest
  · have status := (Prod.mk.inj (Except.ok.inj rest)).1
    exact absurd status (by decide)
  rename_i isDirectory
  obtain ⟨linked, linking, rest⟩ := bind_eq_ok rest
  split at rest
  · cases rest
  split at rest
  · cases rest
  cases rest
  have mounted := link_mounted linking
  exact ⟨mountStub, found, looking, real, not_not.mp isDirectory,
    ⟨mounted.links, mounted.fields, mounted.treeRoot, mounted.rootNode,
      mounted.supply, mounted.allocated⟩⟩

end Mount

/-! ### Unmounting -/

/-- The node is none of those that a lookup can end at, now or after it has created
more. -/
structure Outside (vfs : Vfs) (shape : BinaryTree Nat) (node : Nat) : Prop where
  tree : node ∉ shape.inorder
  root : node ≠ vfs.rootNode
  stock : ∀ block ∈ vfs.supply, block.address ≠ node

/-- What the mount_ptr of a node on a path leads to, if it is set, is the root of a
mounted file system: no node on a path, and no stub. -/
def MountsLead (vfs : Vfs) (shape : BinaryTree Nat) : Prop :=
  ∀ node, node = vfs.rootNode ∨ node ∈ shape.inorder → (vfs.node node).mountPtr ≠ 0 →
    vfs.Outside shape (vfs.node node).mountPtr ∧
      (vfs.node (vfs.node node).mountPtr).type ≠ .mountpoint

section Unmount

variable {vfs after : Vfs} {shape result : BinaryTree Nat} {drivers : VfsDrivers}
  {mountStub fsRoot node start found : Nat} {path : Option (List Char)}

theorem Grown.outside (grown : Grown vfs after shape result) (outside : vfs.Outside shape node) :
    after.Outside result node ∧ after.node node = vfs.node node := by
  refine ⟨⟨?_, ?_, ?_⟩, grown.same node outside.stock⟩
  · intro member
    obtain ⟨block, inSupply, isNode⟩ := grown.gained node member outside.tree
    exact outside.stock block inSupply isNode
  · rw [grown.rootNode]
    exact outside.root
  · exact fun block inSupply => outside.stock block (grown.supply inSupply)

theorem Grown.mountsLead (grown : Grown vfs after shape result) (stocked : vfs.Stocked shape)
    (rootKept : ∀ block ∈ vfs.supply, block.address ≠ vfs.rootNode)
    (leads : vfs.MountsLead shape) : after.MountsLead result := by
  have old : ∀ node, node = vfs.rootNode ∨ node ∈ shape.inorder →
      after.node node = vfs.node node := by
    rintro node (isRoot | member)
    · rw [isRoot]
      exact grown.same _ rootKept
    · exact grown.same_member stocked member
  intro node onPath set
  by_cases early : node = vfs.rootNode ∨ node ∈ shape.inorder
  · rw [old node early] at set ⊢
    obtain ⟨outside, noStub⟩ := leads node early set
    obtain ⟨stays, same⟩ := grown.outside outside
    rw [same]
    exact ⟨stays, noStub⟩
  · obtain ⟨notRoot, notOld⟩ := not_or.mp early
    rw [grown.rootNode] at onPath
    exact absurd (grown.new node (onPath.resolve_left notRoot) notOld) set

/-- Nor does a mount of a root that no path leads to. -/
theorem Mounted.mountsLead (mounted : Mounted vfs after mountStub fsRoot)
    (leads : vfs.MountsLead shape) (outside : vfs.Outside shape fsRoot)
    (directory : (vfs.node fsRoot).type ≠ .mountpoint)
    (onPath : mountStub = vfs.rootNode ∨ mountStub ∈ shape.inorder) : after.MountsLead shape := by
  have apart : ∀ node, vfs.Outside shape node → node ≠ mountStub := by
    intro node away same
    rw [same] at away
    rcases onPath with isRoot | member
    · exact away.root isRoot
    · exact away.tree member
  have still : ∀ node, vfs.Outside shape node → after.Outside shape node ∧
      (after.node node).type = (vfs.node node).type := by
    intro node away
    refine ⟨⟨away.tree, ?_, ?_⟩, ?_⟩
    · rw [mounted.rootNode]
      exact away.root
    · rw [mounted.supply]
      exact away.stock
    · rw [mounted.fields node]
      exact if_neg (apart node away)
  intro node here set
  rw [mounted.rootNode] at here
  have notRoot : node ≠ fsRoot := by
    intro same
    rw [same] at here
    rcases here with isRoot | member
    · exact outside.root isRoot
    · exact outside.tree member
  by_cases isStub : node = mountStub
  · have pointer : (after.node node).mountPtr = fsRoot := by
      rw [mounted.fields node]
      exact (if_neg notRoot).trans (if_pos isStub)
    rw [pointer]
    obtain ⟨stays, sameType⟩ := still fsRoot outside
    rw [sameType]
    exact ⟨stays, directory⟩
  · have pointer : (after.node node).mountPtr = (vfs.node node).mountPtr := by
      rw [mounted.fields node]
      exact (if_neg notRoot).trans (if_neg isStub)
    rw [pointer] at set ⊢
    obtain ⟨away, noStub⟩ := leads node here set
    obtain ⟨stays, sameType⟩ := still _ away
    rw [sameType]
    exact ⟨stays, noStub⟩

/-- Where mounts lead to roots, every unmount is refused. -/
theorem vfsUnmount_refused {answer : Option Int} (ordered : vfs.Ordered shape)
    (stocked : vfs.Stocked shape)
    (rootKept : ∀ block ∈ vfs.supply, block.address ≠ vfs.rootNode)
    (leads : vfs.MountsLead shape)
    (run : vfsUnmount drivers path vfs = .ok (answer, after)) :
    answer = some (-EINVAL) ∨ answer = some (-ENOENT) := by
  unfold vfsUnmount at run
  split at run
  · left
    exact (Prod.mk.inj (Except.ok.inj run)).1.symm
  obtain ⟨⟨found, middle⟩, looking, rest⟩ := bind_eq_ok run
  obtain ⟨result, looked⟩ := vfsLookup_lookedUp ordered stocked looking
  have stillLeads := looked.grown.mountsLead stocked rootKept leads
  dsimp only at rest
  split at rest
  · right
    exact (Prod.mk.inj (Except.ok.inj rest)).1.symm
  rename_i real
  have onPath : found = middle.rootNode ∨ found ∈ result.inorder := by
    rw [looked.grown.rootNode]
    exact looked.ends.resolve_left real
  have refused : (middle.node found).mountPtr = 0 ∨
      (middle.node (middle.node found).mountPtr).type ≠ .mountpoint := by
    by_cases set : (middle.node found).mountPtr = 0
    · exact Or.inl set
    · exact Or.inr (stillLeads found onPath set).2
  rw [if_pos refused] at rest
  left
  exact (Prod.mk.inj (Except.ok.inj rest)).1.symm

/-- What an unmount should do: return 0, and leave the path a directory of its old
driver and the counts of the directory and of its mountpoint what they were. -/
def Undone (drivers : VfsDrivers) (path : Option (List Char)) (before mounted : Vfs)
    (directory : Nat) : Prop :=
  ∃ after, vfsUnmount drivers path mounted = .ok (some 0, after) ∧
    (∃ node last, vfsLookup drivers path after = .ok (node, last) ∧ node ≠ 0 ∧
      (last.node node).type = .directory ∧
      (last.node node).operations = (before.node directory).operations) ∧
    after.refCount directory = before.refCount directory ∧
    after.refCount (before.mountpointOf directory) =
      before.refCount (before.mountpointOf directory)

end Unmount

def openDrivers : VfsDrivers := fun table =>
  { VfsSession.plainDrivers table with
    close := some (fun _ => 0)
    openNode := some (fun _ => 0) }

def mountableVfs : Vfs :=
  (VfsSession.freshVfs 1).setNode 1024 ⟨[], 1, .directory, 0, 1024, 0, 2⟩

theorem mountableVfs_ordered : mountableVfs.Ordered nil :=
  ⟨rfl, trivial, trivial, trivial, nofun, List.Pairwise.nil, nofun⟩

theorem mountableVfs_stocked : mountableVfs.Stocked nil :=
  ⟨by decide, nofun, by decide, by decide⟩

theorem mountableVfs_mountsLead : mountableVfs.MountsLead nil := by
  rintro node (isRoot | member) set
  · rw [isRoot] at set
    exact absurd rfl set
  · cases member

end Vfs

end Fesos
