/-
The virtual file system of kernel/vfs.c.

Nodes are heap blocks with an AVL node at their start, so `vfs_tree` is a store
of the tree code whose data is the rest of a `vfs_node_t`.  Drivers are tables of
functions; what they return may change from call to call, so every function takes
the tables in force.  The allocator is an oracle: `supply` holds the blocks the
next calls of kmalloc return, each with the bytes its last user left in it, and a
block given back keeps its content until it is handed out again.  `allocated` and
`trace` are ghost records of the heap and of the calls that leave the VFS.

Reference counts are `uint32_t` and wrap.  Paths are shorter than 4 GiB, so the
two indices of `vfs_lookup` are not cut to 32 bits except in their difference.
-/

import Fesos.Avl

set_option autoImplicit false

namespace Fesos

inductive VfsNodeType where
  | file
  | directory
  | mountpoint
  deriving DecidableEq, Repr

/-- A `vfs_node_t` without its AVL node.  `operations` is the address of the
driver's table, 0 for NULL. -/
structure VfsNode where
  name : List Char
  inode : Nat
  type : VfsNodeType
  refCount : UInt32
  mountpoint : Nat
  mountPtr : Nat
  operations : Nat
  deriving DecidableEq

structure VfsNodeData where
  inode : Nat
  type : VfsNodeType
  operations : Nat
  deriving DecidableEq, Repr

structure VfsDirent where
  name : List Char
  inode : Nat
  type : VfsNodeType
  size : Nat
  deriving DecidableEq, Repr

/-- The entries of a `vfs_ops_t` this file calls; a missing one is NULL. -/
structure VfsOps where
  close : Option (VfsNode → Int)
  openNode : Option (VfsNode → Int)
  finddir : Option (VfsNode → List Char → VfsNodeData)
  readdir : Option (VfsNode → Nat → VfsDirent → Int × VfsDirent)

abbrev VfsDrivers : Type := Nat → VfsOps

/-- A block as kmalloc returns it: nothing in it is cleared. -/
structure VfsBlock where
  address : Nat
  parent : Nat
  left : Nat
  right : Nat
  subtreeMaxDepth : Nat
  update : Nat
  content : VfsNode
  deriving DecidableEq

inductive VfsEvent where
  | driverOpen (node : Nat)
  | driverClose (node : Nat)
  | kfree (node : Nat)
  deriving DecidableEq, Repr

structure Vfs where
  nodes : AvlStore VfsNode Unit
  treeRoot : Nat
  rootNode : Nat
  supply : List VfsBlock
  allocated : List Nat
  trace : List VfsEvent

def nameCapacity : Nat := 128

/-! ### Comparison -/

structure VfsKey where
  mountpoint : Nat
  inode : Nat
  deriving DecidableEq, Repr

def VfsNode.key (node : VfsNode) : VfsKey := ⟨node.mountpoint, node.inode⟩

def vfsCompare (nodeA nodeB : VfsKey) : Int :=
  if nodeA.mountpoint > nodeB.mountpoint then 1
  else if nodeA.mountpoint < nodeB.mountpoint then -1
  else if nodeA.inode > nodeB.inode then 1
  else if nodeA.inode < nodeB.inode then -1
  else 0

/-- No node of the VFS is ever given an update callback. -/
def vfsCallbacks : AvlCallbacks VfsNode Unit := fun _ => none

/-- More rounds than the heap has blocks for nodes: 16 GiB in blocks of 256 bytes. -/
def vfsFuel : Nat := 2 ^ 26 + 1

namespace Vfs

def node (vfs : Vfs) (address : Nat) : VfsNode := vfs.nodes.data address

def setNode (vfs : Vfs) (address : Nat) (value : VfsNode) : Vfs :=
  { vfs with nodes := vfs.nodes.setData address value }

theorem setNode_node (vfs : Vfs) (address other : Nat) (value : VfsNode) :
    (vfs.setNode address value).node other = if other = address then value else vfs.node other :=
  Function.update_apply vfs.nodes.data address value other

def refCount (vfs : Vfs) (address : Nat) : UInt32 := (vfs.node address).refCount

def mountpointOf (vfs : Vfs) (address : Nat) : Nat := (vfs.node address).mountpoint

def setRefCount (vfs : Vfs) (address : Nat) (count : UInt32) : Vfs :=
  vfs.setNode address { vfs.node address with refCount := count }

/-! ### The allocator -/

def load (store : AvlStore VfsNode Unit) (block : VfsBlock) : AvlStore VfsNode Unit :=
  (((((store.setParent block.address block.parent).setLeft block.address block.left).setRight
    block.address block.right).setDepth block.address block.subtreeMaxDepth).setUpdate
      block.address block.update).setData block.address block.content

def kmalloc (vfs : Vfs) : Nat × Vfs :=
  match vfs.supply with
  | [] => (0, vfs)
  | block :: rest =>
    if block.address = 0 then (0, { vfs with supply := rest })
    else
      (block.address,
        { vfs with
          nodes := load vfs.nodes block
          supply := rest
          allocated := block.address :: vfs.allocated })

def log (vfs : Vfs) (event : VfsEvent) : Vfs :=
  { vfs with trace := vfs.trace ++ [event] }

def kfree (vfs : Vfs) (node : Nat) : Vfs :=
  { vfs with allocated := vfs.allocated.erase node }.log (.kfree node)

/-! ### Opening and closing -/

/-- `node->ref_count++; node->mountpoint->ref_count++`, one after the other since
a file system root is its own mountpoint. -/
def retain (node : Nat) (vfs : Vfs) : Except Fault Vfs :=
  let counted := vfs.setRefCount node (vfs.refCount node + 1)
  let mountpoint := counted.mountpointOf node
  if mountpoint = 0 then .error .nullDereference
  else .ok (counted.setRefCount mountpoint (counted.refCount mountpoint + 1))

def release (node : Nat) (vfs : Vfs) : Except Fault Vfs :=
  let counted := vfs.setRefCount node (vfs.refCount node - 1)
  let mountpoint := counted.mountpointOf node
  if mountpoint = 0 then .error .nullDereference
  else .ok (counted.setRefCount mountpoint (counted.refCount mountpoint - 1))

/-- An entry of the driver's table, NULL when the node has no table. -/
def operation {Entry : Type} (drivers : VfsDrivers) (entry : VfsOps → Option Entry)
    (node : VfsNode) : Option Entry :=
  if node.operations = 0 then none else entry (drivers node.operations)

/-- The result is `none` when the function ends without a return statement: the
caller then reads whatever the register holds. -/
def vfsClose (drivers : VfsDrivers) (node : Nat) (vfs : Vfs) : Except Fault (Option Int × Vfs) :=
  if node = 0 then .ok (some (-EINVAL), vfs)
  else do
    let released ← release node vfs
    if released.refCount node = 0 then
      match operation drivers VfsOps.close (released.node node) with
      | none => pure (some 0, released.kfree node)
      | some close =>
        pure (some (close (released.node node)), (released.log (.driverClose node)).kfree node)
    else pure (none, released)

def vfsOpen (drivers : VfsDrivers) (node : Nat) (vfs : Vfs) : Except Fault (Int × Vfs) :=
  if node = 0 then .ok (-EINVAL, vfs)
  else do
    let retained ← retain node vfs
    match operation drivers VfsOps.openNode (retained.node node) with
    | none => pure (0, retained)
    | some openNode =>
      let driverStatus := openNode (retained.node node)
      let notified := retained.log (.driverOpen node)
      if driverStatus ≠ 0 then do
        let rolledBack ← release node notified
        pure (driverStatus, rolledBack)
      else pure (driverStatus, notified)

/-! ### Directories -/

/-- What `vfs_finddir` and `vfs_readdir` take for the root of a mounted system. -/
def redirect (vfs : Vfs) (node : Nat) : Nat :=
  if (vfs.node node).type = .mountpoint ∧ (vfs.node node).mountpoint ≠ 0 then
    (vfs.node node).mountpoint
  else node

/-- The fields `vfs_finddir` sets in a new node; the reference count and the name
behind the copied bytes stay what they were. -/
def describe (stale : VfsNode) (mountpoint : Nat) (name : List Char) (nodeData : VfsNodeData) :
    VfsNode :=
  { stale with
    inode := nodeData.inode
    name := name ++ stale.name.drop name.length
    operations := nodeData.operations
    mountPtr := 0
    mountpoint := mountpoint
    type := nodeData.type }

/-- Create a node and put it into the tree.  `avl_init` is not called, and a name
longer than the field runs over the fields behind it. -/
def createNode (mountpoint : Nat) (name : List Char) (nodeData : VfsNodeData) (vfs : Vfs) :
    Except Fault (Nat × Vfs) :=
  let allocation := vfs.kmalloc
  if allocation.1 = 0 then .error .nullDereference
  else if name.length > nameCapacity then .error (.nameOverflow name.length)
  else do
    let described := allocation.2.setNode allocation.1
      (describe (allocation.2.node allocation.1) mountpoint name nodeData)
    let inserted ← AvlStore.avlInsert vfsCallbacks
      (fun other => vfsCompare other.key ⟨mountpoint, nodeData.inode⟩) vfsFuel
      described.treeRoot allocation.1 described.nodes
    pure (allocation.1, { described with treeRoot := inserted.1, nodes := inserted.2 })

/-- The cache: `avl_get_node` with a key node. -/
def cached (key : VfsKey) (vfs : Vfs) : Except Fault Nat :=
  AvlStore.avlGetNode (fun store other => vfsCompare (store.data other).key key) vfsFuel
    vfs.treeRoot vfs.nodes

def vfsFinddir (drivers : VfsDrivers) (node : Nat) (name : Option (List Char)) (vfs : Vfs) :
    Except Fault (Nat × Vfs) :=
  match name with
  | none => .ok (0, vfs)
  | some name =>
    if node = 0 ∨ name = [] then .ok (0, vfs)
    else
      let directory := vfs.node (vfs.redirect node)
      if directory.type ≠ .directory then .ok (0, vfs)
      else
        match operation drivers VfsOps.finddir directory with
        | none => .ok (0, vfs)
        | some finddir =>
          let nodeData := finddir directory name
          if nodeData.operations = 0 then .ok (0, vfs)
          else do
            let foundNode ← vfs.cached ⟨directory.mountpoint, nodeData.inode⟩
            if foundNode = 0 then createNode directory.mountpoint name nodeData vfs
            else pure (foundNode, vfs)

/-- The status and the dirent after the call. -/
def vfsReaddir (drivers : VfsDrivers) (node index : Nat) (dirent : Option VfsDirent) (vfs : Vfs) :
    Int × Option VfsDirent :=
  match dirent with
  | none => (0, none)
  | some dirent =>
    if node = 0 then (0, some dirent)
    else
      let directory := vfs.node (vfs.redirect node)
      if directory.type ≠ .directory then (0, some dirent)
      else
        match operation drivers VfsOps.readdir directory with
        | none => (0, some dirent)
        | some readdir =>
          ((readdir directory index dirent).1, some (readdir directory index dirent).2)

/-! ### Paths -/

def nul : Char := Char.ofNat 0

def pathAt (path : List Char) (index : Nat) : Char := path.getD index nul

def componentEnd (path : List Char) (index : Nat) : Nat :=
  index + ((path.drop index).takeWhile (fun character => character ≠ '/' && character ≠ nul)).length

/-- `left_ptr - right_ptr > 1`, the operands in this order. -/
def componentSeen (left right : Nat) : Prop := UInt32.ofNat left - UInt32.ofNat right > 1

instance (left right : Nat) : Decidable (componentSeen left right) :=
  inferInstanceAs (Decidable (UInt32.ofNat left - UInt32.ofNat right > 1))

/-- One step of the walk: look the name up, then give the directory back when
nothing refers to it. -/
def descend (drivers : VfsDrivers) (currentNode : Nat) (name : List Char) (vfs : Vfs) :
    Except Fault (Nat × Vfs) := do
  let found ← vfsFinddir drivers currentNode (some name) vfs
  if currentNode = 0 then .error .nullDereference
  else if found.2.refCount currentNode = 0 then pure (found.1, found.2.kfree currentNode)
  else pure found

def lookupFrom (drivers : VfsDrivers) (path : List Char) :
    Nat → Nat → Nat → Vfs → Except Fault (Nat × Vfs)
  | 0, _, _, _ => .error .outOfFuel
  | fuel + 1, currentNode, left, vfs => do
    let right := componentEnd path left
    let reached ←
      if componentSeen left right then
        descend drivers currentNode ((path.drop left).take (right - left)) vfs
      else pure (currentNode, vfs)
    if reached.1 = 0 then pure (0, reached.2)
    else if pathAt path right = nul then pure reached
    else lookupFrom drivers path fuel reached.1 (right + 1) reached.2

/-- Every round ends behind a character of the path, so its length is fuel enough. -/
def vfsLookup (drivers : VfsDrivers) (path : Option (List Char)) (vfs : Vfs) :
    Except Fault (Nat × Vfs) :=
  match path with
  | none => .ok (0, vfs)
  | some path =>
    if pathAt path 0 = nul then .ok (0, vfs)
    else if pathAt path 0 = '/' then
      lookupFrom drivers path (path.length + 1) vfs.rootNode 1 vfs
    else .ok (0, vfs)

/-! ### Mounting -/

/-- The stores of `vfs_mount` up to its call of the driver. -/
def link (mountStub fsRoot : Nat) (vfs : Vfs) : Except Fault Vfs := do
  let marked := vfs.setNode mountStub
    { vfs.node mountStub with type := .mountpoint, mountPtr := fsRoot }
  let linked := marked.setNode fsRoot { marked.node fsRoot with mountPtr := mountStub }
  let retained ← retain mountStub linked
  pure (retained.setRefCount fsRoot (retained.refCount fsRoot + 1))

/-- The test after the lookup is of `mount_path` again, not of the node found, and
what the driver's open returns is dropped. -/
def vfsMount (drivers : VfsDrivers) (mountPath : Option (List Char)) (fsRoot : Nat) (vfs : Vfs) :
    Except Fault (Int × Vfs) :=
  if fsRoot = 0 ∨ mountPath = none then .ok (-EINVAL, vfs)
  else do
    let mountStub ← vfsLookup drivers mountPath vfs
    if mountStub.1 = 0 then .error .nullDereference
    else if (mountStub.2.node mountStub.1).type ≠ .directory then pure (-ENOTDIR, mountStub.2)
    else do
      let linked ← link mountStub.1 fsRoot mountStub.2
      if (linked.node fsRoot).operations = 0 then .error .nullDereference
      else
        match (drivers (linked.node fsRoot).operations).openNode with
        | none => .error (.wildCall 0)
        | some _ => pure (0, linked.log (.driverOpen fsRoot))

def vfsUnmount (drivers : VfsDrivers) (path : Option (List Char)) (vfs : Vfs) :
    Except Fault (Option Int × Vfs) :=
  if path = none then .ok (some (-EINVAL), vfs)
  else do
    let fsRoot ← vfsLookup drivers path vfs
    if fsRoot.1 = 0 then pure (some (-ENOENT), fsRoot.2)
    else
      let mountStub := (fsRoot.2.node fsRoot.1).mountPtr
      if mountStub = 0 ∨ (fsRoot.2.node mountStub).type ≠ .mountpoint then
        pure (some (-EINVAL), fsRoot.2)
      else if fsRoot.2.refCount fsRoot.1 > 1 then pure (some (-EBUSY), fsRoot.2)
      else do
        let released ← release mountStub fsRoot.2
        vfsClose drivers fsRoot.1 (released.kfree mountStub)

def vfsInit (rootNode : Nat) (vfs : Vfs) : Except Fault Vfs :=
  if rootNode = 0 then .error .nullDereference
  else
    .ok { vfs.setRefCount rootNode (vfs.refCount rootNode + 1) with rootNode := rootNode }

end Vfs

end Fesos
