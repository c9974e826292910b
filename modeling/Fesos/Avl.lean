/-
The intrusive AVL trees of common/ds/avl.c.

Nodes are addresses, 0 is NULL, and the fields of `avl_node_t` are maps from
addresses.  The structure a node is embedded in appears as `data`, which the
tree code never writes, and `summary`, which only the update callback writes;
`callbacks` gives the meaning of the callback pointers.  Loops and recursions
take fuel, since nothing stops them on cyclic links.  Depths are not cut to
`int`: a tree of that depth does not fit in memory.
-/

import Fesos.Machine

set_option autoImplicit false

namespace Fesos

structure AvlStore (Data Summary : Type) where
  parent : Nat → Nat
  left : Nat → Nat
  right : Nat → Nat
  subtreeMaxDepth : Nat → Nat
  update : Nat → Nat
  data : Nat → Data
  summary : Nat → Summary

/-- An update callback computes a node's summary from its data and the summaries
of its children. -/
abbrev AvlCallbacks (Data Summary : Type) : Type :=
  Nat → Option (Data → Option Summary → Option Summary → Summary)

namespace AvlStore

variable {Data Summary : Type}

def setParent (store : AvlStore Data Summary) (node value : Nat) : AvlStore Data Summary :=
  { store with parent := Function.update store.parent node value }

def setLeft (store : AvlStore Data Summary) (node value : Nat) : AvlStore Data Summary :=
  { store with left := Function.update store.left node value }

def setRight (store : AvlStore Data Summary) (node value : Nat) : AvlStore Data Summary :=
  { store with right := Function.update store.right node value }

def setDepth (store : AvlStore Data Summary) (node value : Nat) : AvlStore Data Summary :=
  { store with subtreeMaxDepth := Function.update store.subtreeMaxDepth node value }

def setUpdate (store : AvlStore Data Summary) (node value : Nat) : AvlStore Data Summary :=
  { store with update := Function.update store.update node value }

def setData (store : AvlStore Data Summary) (node : Nat) (value : Data) : AvlStore Data Summary :=
  { store with data := Function.update store.data node value }

def setSummary (store : AvlStore Data Summary) (node : Nat) (value : Summary) :
    AvlStore Data Summary :=
  { store with summary := Function.update store.summary node value }

def avlInit (store : AvlStore Data Summary) (node updateCallback : Nat) : AvlStore Data Summary :=
  if node = 0 then store
  else ((((store.setParent node 0).setLeft node 0).setRight node 0).setDepth node 0).setUpdate
    node updateCallback

def childSummary (store : AvlStore Data Summary) (child : Nat) : Option Summary :=
  if child = 0 then none else some (store.summary child)

def avlUpdate (callbacks : AvlCallbacks Data Summary) (node : Nat)
    (store : AvlStore Data Summary) : Except Fault (AvlStore Data Summary) :=
  if node = 0 then .ok store
  else
    let maxDepthLeftSubtree : Int :=
      if store.left node ≠ 0 then store.subtreeMaxDepth (store.left node) else -1
    let maxDepthRightSubtree : Int :=
      if store.right node ≠ 0 then store.subtreeMaxDepth (store.right node) else -1
    let deepened :=
      store.setDepth node (max maxDepthLeftSubtree maxDepthRightSubtree + 1).toNat
    if store.update node = 0 then .ok deepened
    else
      match callbacks (store.update node) with
      | none => .error (.wildCall (store.update node))
      | some callback =>
        .ok (deepened.setSummary node
          (callback (store.data node) (store.childSummary (store.left node))
            (store.childSummary (store.right node))))

def avlGetBalanceFactor (store : AvlStore Data Summary) (node : Nat) : Int :=
  let maxDepthLeftSubtree : Nat :=
    if store.left node ≠ 0 then store.subtreeMaxDepth (store.left node) + 1 else 0
  let maxDepthRightSubtree : Nat :=
    if store.right node ≠ 0 then store.subtreeMaxDepth (store.right node) + 1 else 0
  (maxDepthLeftSubtree : Int) - maxDepthRightSubtree

def relinkRight (store : AvlStore Data Summary) (node : Nat) : AvlStore Data Summary :=
  let newSubtreeRoot := store.left node
  let inner := store.right newSubtreeRoot
  let lowered := store.setLeft node inner
  let adopted := if inner ≠ 0 then lowered.setParent inner node else lowered
  ((adopted.setRight newSubtreeRoot node).setParent newSubtreeRoot (store.parent node)).setParent
    node newSubtreeRoot

def relinkLeft (store : AvlStore Data Summary) (node : Nat) : AvlStore Data Summary :=
  let newSubtreeRoot := store.right node
  let inner := store.left newSubtreeRoot
  let lowered := store.setRight node inner
  let adopted := if inner ≠ 0 then lowered.setParent inner node else lowered
  ((adopted.setLeft newSubtreeRoot node).setParent newSubtreeRoot (store.parent node)).setParent
    node newSubtreeRoot

/-- The updates that end both rotations: children first, then the new root. -/
def updateAround (callbacks : AvlCallbacks Data Summary) (root : Nat)
    (store : AvlStore Data Summary) : Except Fault (AvlStore Data Summary) := do
  let leftDone ← avlUpdate callbacks (store.left root) store
  let rightDone ← avlUpdate callbacks (leftDone.right root) leftDone
  avlUpdate callbacks root rightDone

def avlRotateRight (callbacks : AvlCallbacks Data Summary) (node : Nat)
    (store : AvlStore Data Summary) : Except Fault (Nat × AvlStore Data Summary) :=
  let newSubtreeRoot := store.left node
  if newSubtreeRoot = 0 then .error .nullDereference
  else do
    let updated ← updateAround callbacks newSubtreeRoot (store.relinkRight node)
    return (newSubtreeRoot, updated)

def avlRotateLeft (callbacks : AvlCallbacks Data Summary) (node : Nat)
    (store : AvlStore Data Summary) : Except Fault (Nat × AvlStore Data Summary) :=
  let newSubtreeRoot := store.right node
  if newSubtreeRoot = 0 then .error .nullDereference
  else do
    let updated ← updateAround callbacks newSubtreeRoot (store.relinkLeft node)
    return (newSubtreeRoot, updated)

/-- A factor of two or more needs a child on that side, so the balance factor of
the child is never taken of NULL. -/
def avlCheckAndBalance (callbacks : AvlCallbacks Data Summary) (node : Nat)
    (store : AvlStore Data Summary) : Except Fault (Nat × AvlStore Data Summary) :=
  let balance := store.avlGetBalanceFactor node
  if balance < 2 ∧ balance > -2 then .ok (node, store)
  else if balance > 0 then
    if store.avlGetBalanceFactor (store.left node) > 0 then
      avlRotateRight callbacks node store
    else do
      let rotated ← avlRotateLeft callbacks (store.left node) store
      avlRotateRight callbacks node (rotated.2.setLeft node rotated.1)
  else
    if store.avlGetBalanceFactor (store.right node) < 0 then
      avlRotateLeft callbacks node store
    else do
      let rotated ← avlRotateRight callbacks (store.right node) store
      avlRotateLeft callbacks node (rotated.2.setRight node rotated.1)

/-- `comp` is the comparison of a node with the node to insert. -/
def avlInsertRec (callbacks : AvlCallbacks Data Summary) (comp : Data → Int) (nodeToInsert : Nat) :
    Nat → Nat → AvlStore Data Summary → Except Fault (Nat × AvlStore Data Summary)
  | 0, _, _ => .error .outOfFuel
  | fuel + 1, root, start =>
    let store := start.setParent nodeToInsert root
    let descended : Except Fault (AvlStore Data Summary) :=
      if comp (store.data root) > 0 then
        if store.left root ≠ 0 then do
          let inserted ← avlInsertRec callbacks comp nodeToInsert fuel (store.left root) store
          pure (inserted.2.setLeft root inserted.1)
        else pure ((store.setLeft root nodeToInsert).setParent nodeToInsert root)
      else
        if store.right root ≠ 0 then do
          let inserted ← avlInsertRec callbacks comp nodeToInsert fuel (store.right root) store
          pure (inserted.2.setRight root inserted.1)
        else pure ((store.setRight root nodeToInsert).setParent nodeToInsert root)
    do
      let linked ← descended
      let updated ← avlUpdate callbacks root linked
      avlCheckAndBalance callbacks root updated

def avlInsert (callbacks : AvlCallbacks Data Summary) (comp : Data → Int) (fuel root : Nat)
    (nodeToInsert : Nat) (store : AvlStore Data Summary) :
    Except Fault (Nat × AvlStore Data Summary) :=
  if root = 0 then .ok (nodeToInsert, store)
  else avlInsertRec callbacks comp nodeToInsert fuel root store

/-- `comp` is the comparison of a node with the key; it may read the links. -/
def avlGetNodeRec (comp : AvlStore Data Summary → Nat → Int) (store : AvlStore Data Summary) :
    Nat → Nat → Except Fault Nat
  | 0, _ => .error .outOfFuel
  | fuel + 1, root =>
    if root = 0 then .ok 0
    else if comp store root = 0 then .ok root
    else if comp store root > 0 then avlGetNodeRec comp store fuel (store.left root)
    else avlGetNodeRec comp store fuel (store.right root)

def avlGetNode (comp : AvlStore Data Summary → Nat → Int) (fuel root : Nat)
    (store : AvlStore Data Summary) : Except Fault Nat :=
  if root = 0 then .ok 0 else avlGetNodeRec comp store fuel root

def avlBubbleUpdateAndBalance (callbacks : AvlCallbacks Data Summary) :
    Nat → Nat → AvlStore Data Summary → Except Fault (Nat × AvlStore Data Summary)
  | 0, _, _ => .error .outOfFuel
  | fuel + 1, node, store =>
    if node = 0 then .ok (0, store)
    else do
      let updated ← avlUpdate callbacks node store
      let balanced ← avlCheckAndBalance callbacks node updated
      let parent := balanced.2.parent balanced.1
      if parent = 0 then .ok balanced
      else
        avlBubbleUpdateAndBalance callbacks fuel parent
          (if node = balanced.2.left parent then balanced.2.setLeft parent balanced.1
            else balanced.2.setRight parent balanced.1)

def outermost (child : Nat → Nat) : Nat → Nat → Except Fault Nat
  | 0, _ => .error .outOfFuel
  | fuel + 1, node => if child node ≠ 0 then outermost child fuel (child node) else .ok node

def climb (parent child : Nat → Nat) : Nat → Nat → Nat → Except Fault Nat
  | 0, _, _ => .error .outOfFuel
  | fuel + 1, curr, p =>
    if p ≠ 0 ∧ curr = child p then climb parent child fuel p (parent p) else .ok p

def avlGetPredecessor (fuel node : Nat) (store : AvlStore Data Summary) : Except Fault Nat :=
  if store.left node ≠ 0 then outermost store.right fuel (store.left node)
  else climb store.parent store.left fuel node (store.parent node)

def avlGetSuccessor (fuel node : Nat) (store : AvlStore Data Summary) : Except Fault Nat :=
  if store.right node ≠ 0 then outermost store.left fuel (store.right node)
  else climb store.parent store.right fuel node (store.parent node)

def avlFirst (fuel root : Nat) (store : AvlStore Data Summary) : Except Fault Nat :=
  if root = 0 then .ok 0 else outermost store.left fuel root

def avlLast (fuel root : Nat) (store : AvlStore Data Summary) : Except Fault Nat :=
  if root = 0 then .ok 0 else outermost store.right fuel root

def avlNext (fuel node : Nat) (store : AvlStore Data Summary) : Except Fault Nat :=
  if node = 0 then .ok 0 else avlGetSuccessor fuel node store

def avlPrev (fuel node : Nat) (store : AvlStore Data Summary) : Except Fault Nat :=
  if node = 0 then .ok 0 else avlGetPredecessor fuel node store

/-- Make the parent of `node` point to `child` in its place. -/
def replaceChild (store : AvlStore Data Summary) (node child : Nat) : AvlStore Data Summary :=
  if store.left (store.parent node) = node then store.setLeft (store.parent node) child
  else store.setRight (store.parent node) child

/-- Put `victim` in the place of `node`; the parent's link is left to the
rebalancing loop. -/
def takePlace (store : AvlStore Data Summary) (victim node : Nat) : AvlStore Data Summary :=
  let leftTaken := store.setLeft victim (store.left node)
  let leftAdopted := leftTaken.setParent (leftTaken.left victim) victim
  let rightTaken := leftAdopted.setRight victim (leftAdopted.right node)
  let rightAdopted := rightTaken.setParent (rightTaken.right victim) victim
  rightAdopted.setParent victim (rightAdopted.parent node)

def avlRemove (callbacks : AvlCallbacks Data Summary) :
    Nat → Nat → Nat → AvlStore Data Summary → Except Fault (Nat × AvlStore Data Summary)
  | 0, _, _, _ => .error .outOfFuel
  | fuel + 1, root, nodeToRemove, store =>
    if root = 0 then .ok (root, store)
    else if store.left nodeToRemove = 0 ∧ store.right nodeToRemove = 0 then
      if store.parent nodeToRemove = 0 then .ok (0, store)
      else
        avlBubbleUpdateAndBalance callbacks fuel (store.parent nodeToRemove)
          (store.replaceChild nodeToRemove 0)
    else if store.left nodeToRemove ≠ 0 ∧ store.right nodeToRemove ≠ 0 then do
      let victimNode ← avlGetSuccessor fuel nodeToRemove store
      let removed ← avlRemove callbacks fuel root victimNode store
      if removed.2.left nodeToRemove = 0 ∨ removed.2.right nodeToRemove = 0 then
        .error .nullDereference
      else
        avlBubbleUpdateAndBalance callbacks fuel victimNode
          (removed.2.takePlace victimNode nodeToRemove)
    else
      let child :=
        if store.left nodeToRemove ≠ 0 then store.left nodeToRemove
        else store.right nodeToRemove
      if store.parent nodeToRemove = 0 then .error .nullDereference
      else
        avlBubbleUpdateAndBalance callbacks fuel (store.parent nodeToRemove)
          ((store.setParent child (store.parent nodeToRemove)).replaceChild nodeToRemove child)

end AvlStore

end Fesos
