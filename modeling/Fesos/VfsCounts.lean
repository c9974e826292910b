/-
Reference counts of VFS nodes over runs of vfs_open and vfs_close.

An open handle adds one to the count of its node and one to the count of the
node's mountpoint, which for a file system root is the same counter.  The run
keeps the list of open handles; every count is its initial value plus what the
handles add, in the arithmetic of `uint32_t` and, as long as the sum fits, as
numbers.
-/

import Fesos.Library.Runs
import Fesos.Vfs

set_option autoImplicit false

namespace Fesos

open Library List

namespace Vfs

/-! ### What a change of counts leaves alone -/

/-- `after` differs from `before` at most in reference counts and in the trace. -/
structure Recounted (before after : Vfs) : Prop where
  links : after.nodes = { before.nodes with data := after.nodes.data }
  fields : ∀ node, after.node node = { before.node node with refCount := after.refCount node }
  treeRoot : after.treeRoot = before.treeRoot
  rootNode : after.rootNode = before.rootNode
  supply : after.supply = before.supply
  allocated : after.allocated = before.allocated

namespace Recounted

variable {before middle after : Vfs}

theorem refl (vfs : Vfs) : Recounted vfs vfs :=
  ⟨rfl, fun _ => rfl, rfl, rfl, rfl, rfl⟩

theorem trans (first : Recounted before middle) (second : Recounted middle after) :
    Recounted before after where
  links := by
    rw [second.links, first.links]
  fields := by
    intro node
    rw [second.fields node, first.fields node]
  treeRoot := second.treeRoot.trans first.treeRoot
  rootNode := second.rootNode.trans first.rootNode
  supply := second.supply.trans first.supply
  allocated := second.allocated.trans first.allocated

theorem mountpointOf (same : Recounted before after) (node : Nat) :
    after.mountpointOf node = before.mountpointOf node := by
  unfold Vfs.mountpointOf
  rw [same.fields node]

theorem log (same : Recounted before after) (event : VfsEvent) :
    Recounted before (after.log event) :=
  ⟨same.links, same.fields, same.treeRoot, same.rootNode, same.supply, same.allocated⟩

end Recounted

theorem setRefCount_refCount (vfs : Vfs) (node other : Nat) (count : UInt32) :
    (vfs.setRefCount node count).refCount other =
      if other = node then count else vfs.refCount other := by
  unfold setRefCount refCount
  rw [setNode_node]
  by_cases same : other = node
  · rw [if_pos same, if_pos same]
  · rw [if_neg same, if_neg same]

theorem setRefCount_recounted (vfs : Vfs) (node : Nat) (count : UInt32) :
    Recounted vfs (vfs.setRefCount node count) where
  links := rfl
  fields := by
    intro other
    rw [setRefCount_refCount]
    unfold setRefCount
    rw [setNode_node]
    by_cases same : other = node
    · rw [if_pos same, if_pos same, same]
    · rw [if_neg same, if_neg same]
      rfl
  treeRoot := rfl
  rootNode := rfl
  supply := rfl
  allocated := rfl

/-- What one handle on `node` adds to the count of `other`. -/
def share (vfs : Vfs) (node other : Nat) : Nat :=
  (if other = node then 1 else 0) + (if other = vfs.mountpointOf node then 1 else 0)

/-- A change of the node's own count and of its mountpoint's by the same amount. -/
theorem both_counts {vfs counted : Vfs} {node : Nat} (change : UInt32 → UInt32)
    (own : counted = vfs.setRefCount node (change (vfs.refCount node))) (other : Nat) :
    (counted.setRefCount (counted.mountpointOf node)
        (change (counted.refCount (counted.mountpointOf node)))).refCount other =
      change^[vfs.share node other] (vfs.refCount other) := by
  have mountpoint : counted.mountpointOf node = vfs.mountpointOf node := by
    rw [own]
    exact (setRefCount_recounted vfs node _).mountpointOf node
  rw [setRefCount_refCount, mountpoint, own, setRefCount_refCount, setRefCount_refCount]
  unfold share
  by_cases isMountpoint : other = vfs.mountpointOf node
  · rw [if_pos isMountpoint, if_pos isMountpoint, ← isMountpoint]
    by_cases isNode : other = node
    · rw [if_pos isNode, if_pos isNode, isNode]
      rfl
    · rw [if_neg isNode, if_neg isNode]
      rfl
  · rw [if_neg isMountpoint, if_neg isMountpoint]
    by_cases isNode : other = node
    · rw [if_pos isNode, if_pos isNode, isNode]
      rfl
    · rw [if_neg isNode, if_neg isNode]
      rfl

theorem iterate_increment (times : Nat) (count : UInt32) :
    (fun value : UInt32 => value + 1)^[times] count = count + UInt32.ofNat times := by
  induction times with
  | zero => exact (UInt32.add_zero count).symm
  | succ times ih =>
    rw [Function.iterate_succ_apply', ih, UInt32.ofNat_add, UInt32.add_assoc]
    rfl

theorem iterate_decrement (times : Nat) (count : UInt32) :
    (fun value : UInt32 => value - 1)^[times] count + UInt32.ofNat times = count := by
  induction times with
  | zero => exact UInt32.add_zero count
  | succ times ih =>
    rw [Function.iterate_succ_apply', UInt32.ofNat_add]
    change _ - 1 + (UInt32.ofNat times + 1) = count
    rw [UInt32.add_comm (UInt32.ofNat times) 1, ← UInt32.add_assoc, UInt32.sub_add_cancel, ih]

section Pairs

variable {vfs after : Vfs} {node : Nat}

theorem retain_ok (retained : retain node vfs = .ok after) :
    Recounted vfs after ∧ after.trace = vfs.trace ∧
      ∀ other, after.refCount other = vfs.refCount other + UInt32.ofNat (vfs.share node other) := by
  unfold retain at retained
  dsimp only at retained
  split at retained
  · cases retained
  cases retained
  constructor
  · exact (setRefCount_recounted _ _ _).trans (setRefCount_recounted _ _ _)
  · constructor
    · rfl
    · intro other
      rw [← iterate_increment]
      exact both_counts (fun value => value + 1) rfl other

theorem release_ok (released : release node vfs = .ok after) :
    Recounted vfs after ∧ after.trace = vfs.trace ∧
      ∀ other, after.refCount other + UInt32.ofNat (vfs.share node other) = vfs.refCount other := by
  unfold release at released
  dsimp only at released
  split at released
  · cases released
  cases released
  constructor
  · exact (setRefCount_recounted _ _ _).trans (setRefCount_recounted _ _ _)
  · constructor
    · rfl
    · intro other
      rw [both_counts (fun value => value - 1) rfl other]
      exact iterate_decrement _ _

end Pairs

/-! ### One call -/

def closing (drivers : VfsDrivers) (vfs : Vfs) (node : Nat) : List VfsEvent :=
  match operation drivers VfsOps.close (vfs.node node) with
  | none => [.kfree node]
  | some _ => [.driverClose node, .kfree node]

structure Closed (drivers : VfsDrivers) (node : Nat) (before after : Vfs) : Prop where
  counts : ∀ other,
    after.refCount other + UInt32.ofNat (before.share node other) = before.refCount other
  mountpoints : ∀ other, after.mountpointOf other = before.mountpointOf other
  trace : after.trace =
    before.trace ++ (if after.refCount node = 0 then closing drivers before node else [])
  allocated : after.allocated =
    if after.refCount node = 0 then before.allocated.erase node else before.allocated

/-- What an open does: a count that the driver refused is rolled back. -/
structure Opened (status : Int) (node : Nat) (before after : Vfs) : Prop where
  counts : ∀ other, after.refCount other =
    before.refCount other + (if status = 0 then UInt32.ofNat (before.share node other) else 0)
  recounted : Recounted before after
  trace : after.trace = before.trace ∨ after.trace = before.trace ++ [.driverOpen node]

section Calls

variable {drivers : VfsDrivers} {vfs after : Vfs} {node : Nat}

theorem operation_recounted {Entry : Type} (entry : VfsOps → Option Entry)
    (same : Recounted vfs after) (node : Nat) :
    operation drivers entry (after.node node) = operation drivers entry (vfs.node node) := by
  rw [same.fields node]
  rfl

theorem retain_returns (mounted : vfs.mountpointOf node ≠ 0) :
    ∃ after, retain node vfs = .ok after := by
  have kept := (setRefCount_recounted vfs node (vfs.refCount node + 1)).mountpointOf node
  unfold retain
  dsimp only
  rw [kept, if_neg mounted]
  exact ⟨_, rfl⟩

theorem release_returns (mounted : vfs.mountpointOf node ≠ 0) :
    ∃ after, release node vfs = .ok after := by
  have kept := (setRefCount_recounted vfs node (vfs.refCount node - 1)).mountpointOf node
  unfold release
  dsimp only
  rw [kept, if_neg mounted]
  exact ⟨_, rfl⟩

theorem vfsClose_ok {result : Option Int} (real : node ≠ 0)
    (closed : vfsClose drivers node vfs = .ok (result, after)) :
    Closed drivers node vfs after := by
  unfold vfsClose at closed
  rw [if_neg real] at closed
  obtain ⟨released, isReleased, rest⟩ := bind_eq_ok closed
  obtain ⟨same, sameTrace, counts⟩ := release_ok isReleased
  by_cases unused : released.refCount node = 0
  · rw [if_pos unused, operation_recounted VfsOps.close same node] at rest
    cases driverClose : operation drivers VfsOps.close (vfs.node node) with
    | none =>
      rw [driverClose] at rest
      cases rest
      have events : closing drivers vfs node = [.kfree node] := by
        unfold closing
        rw [driverClose]
      constructor
      · exact counts
      · exact same.mountpointOf
      · change released.trace ++ [.kfree node] =
          vfs.trace ++ (if released.refCount node = 0 then closing drivers vfs node else [])
        rw [if_pos unused, sameTrace, events]
      · change released.allocated.erase node =
          if released.refCount node = 0 then vfs.allocated.erase node else vfs.allocated
        rw [if_pos unused, same.allocated]
    | some close =>
      rw [driverClose] at rest
      cases rest
      have events : closing drivers vfs node = [.driverClose node, .kfree node] := by
        unfold closing
        rw [driverClose]
      constructor
      · exact counts
      · exact same.mountpointOf
      · change released.trace ++ [.driverClose node] ++ [.kfree node] =
          vfs.trace ++ (if released.refCount node = 0 then closing drivers vfs node else [])
        rw [if_pos unused, sameTrace, events, append_assoc]
        rfl
      · change released.allocated.erase node =
          if released.refCount node = 0 then vfs.allocated.erase node else vfs.allocated
        rw [if_pos unused, same.allocated]
  · rw [if_neg unused] at rest
    cases rest
    constructor
    · exact counts
    · exact same.mountpointOf
    · rw [if_neg unused, append_nil, sameTrace]
    · rw [if_neg unused, same.allocated]

theorem vfsClose_returns (drivers : VfsDrivers) (mounted : vfs.mountpointOf node ≠ 0) :
    ∃ result after, vfsClose drivers node vfs = .ok (result, after) := by
  unfold vfsClose
  by_cases null : node = 0
  · rw [if_pos null]
    exact ⟨_, _, rfl⟩
  rw [if_neg null]
  obtain ⟨released, isReleased⟩ := release_returns mounted
  rw [isReleased, ok_bind]
  by_cases unused : released.refCount node = 0
  · rw [if_pos unused]
    cases operation drivers VfsOps.close (released.node node) with
    | none => exact ⟨_, _, rfl⟩
    | some close => exact ⟨_, _, rfl⟩
  · rw [if_neg unused]
    exact ⟨_, _, rfl⟩

theorem share_recounted (same : Recounted vfs after) (node other : Nat) :
    after.share node other = vfs.share node other := by
  unfold share
  rw [same.mountpointOf node]

theorem vfsOpen_ok {status : Int} (real : node ≠ 0)
    (opened : vfsOpen drivers node vfs = .ok (status, after)) : Opened status node vfs after := by
  unfold vfsOpen at opened
  rw [if_neg real] at opened
  obtain ⟨retained, isRetained, rest⟩ := bind_eq_ok opened
  obtain ⟨same, sameTrace, counts⟩ := retain_ok isRetained
  cases driverOpen : operation drivers VfsOps.openNode (retained.node node) with
  | none =>
    rw [driverOpen] at rest
    cases rest
    constructor
    · intro other
      rw [if_pos rfl]
      exact counts other
    · exact same
    · exact Or.inl sameTrace
  | some openNode =>
    rw [driverOpen] at rest
    by_cases refused : openNode (retained.node node) ≠ 0
    · dsimp only at rest
      rw [if_pos refused] at rest
      obtain ⟨rolledBack, isReleased, isResult⟩ := bind_eq_ok rest
      cases isResult
      obtain ⟨sameBack, traceBack, countsBack⟩ := release_ok isReleased
      constructor
      · intro other
        -- the roll back takes the same share off again
        have back := countsBack other
        rw [share_recounted (same.log _) node other] at back
        have forth : (retained.log (.driverOpen node)).refCount other = _ := counts other
        rw [if_neg refused, UInt32.add_zero]
        rw [forth] at back
        exact (UInt32.add_left_inj _).mp back
      · exact (same.log _).trans sameBack
      · right
        rw [traceBack]
        change retained.trace ++ [.driverOpen node] = _
        rw [sameTrace]
    · dsimp only at rest
      rw [if_neg refused] at rest
      cases rest
      constructor
      · intro other
        rw [if_pos (not_not.mp refused)]
        exact counts other
      · exact same.log _
      · right
        change retained.trace ++ [.driverOpen node] = _
        rw [sameTrace]

theorem vfsOpen_returns (drivers : VfsDrivers) (mounted : vfs.mountpointOf node ≠ 0) :
    ∃ status after, vfsOpen drivers node vfs = .ok (status, after) := by
  unfold vfsOpen
  by_cases null : node = 0
  · rw [if_pos null]
    exact ⟨_, _, rfl⟩
  rw [if_neg null]
  obtain ⟨retained, isRetained⟩ := retain_returns mounted
  have same := (retain_ok isRetained).1
  rw [isRetained, ok_bind]
  cases operation drivers VfsOps.openNode (retained.node node) with
  | none => exact ⟨_, _, rfl⟩
  | some openNode =>
    dsimp only
    by_cases refused : openNode (retained.node node) ≠ 0
    · rw [if_pos refused]
      have stillMounted : (retained.log (.driverOpen node)).mountpointOf node ≠ 0 := by
        rw [(same.log _).mountpointOf node]
        exact mounted
      obtain ⟨rolledBack, isReleased⟩ := release_returns stillMounted
      rw [isReleased]
      exact ⟨_, _, rfl⟩
    · rw [if_neg refused]
      exact ⟨_, _, rfl⟩

end Calls

end Vfs

/-! ### Runs -/

structure VfsSession where
  vfs : Vfs
  handles : List Nat

inductive VfsFileCall where
  | openNode (drivers : VfsDrivers) (node : Nat)
  | closeNode (drivers : VfsDrivers) (node : Nat)

namespace VfsSession

open Vfs

def step (session : VfsSession) : VfsFileCall → Except Fault VfsSession
  | .openNode drivers node => do
    let opened ← vfsOpen drivers node session.vfs
    pure ⟨opened.2, if opened.1 = 0 then node :: session.handles else session.handles⟩
  | .closeNode drivers node => do
    let closed ← vfsClose drivers node session.vfs
    pure ⟨closed.2, session.handles.erase node⟩

/-- Calls are made on live nodes, and a close needs an open handle. -/
def Admissible (session : VfsSession) : VfsFileCall → Prop
  | .openNode _ node => node ≠ 0 ∧ node ∈ session.vfs.allocated
  | .closeNode _ node => node ≠ 0 ∧ node ∈ session.vfs.allocated ∧ node ∈ session.handles

instance (session : VfsSession) (call : VfsFileCall) : Decidable (session.Admissible call) :=
  match call with
  | .openNode _ node => inferInstanceAs (Decidable (node ≠ 0 ∧ node ∈ session.vfs.allocated))
  | .closeNode _ node =>
    inferInstanceAs
      (Decidable (node ≠ 0 ∧ node ∈ session.vfs.allocated ∧ node ∈ session.handles))

def held (vfs : Vfs) (handles : List Nat) (node : Nat) : Nat :=
  handles.count node + handles.countP (fun handle => vfs.mountpointOf handle = node)

theorem held_cons (vfs : Vfs) (handles : List Nat) (handle node : Nat) :
    held vfs (handle :: handles) node = held vfs handles node + vfs.share handle node := by
  unfold held share
  rw [count_cons, countP_cons]
  simp only [beq_iff_eq, decide_eq_true_eq, eq_comm (a := node)]
  omega

theorem held_erase (vfs : Vfs) {handles : List Nat} {handle : Nat} (isOpen : handle ∈ handles)
    (node : Nat) :
    held vfs handles node = held vfs (handles.erase handle) node + vfs.share handle node := by
  have rearranged := perm_cons_erase isOpen
  rw [← held_cons]
  unfold held
  rw [rearranged.count_eq, rearranged.countP_eq]

theorem held_congr {vfs other : Vfs} (same : ∀ node, other.mountpointOf node = vfs.mountpointOf node)
    (handles : List Nat) (node : Nat) : held other handles node = held vfs handles node := by
  unfold held
  simp only [same]

theorem held_le (vfs : Vfs) (handles : List Nat) (node : Nat) :
    held vfs handles node ≤ 2 * handles.length := by
  have own : handles.count node ≤ handles.length := count_le_length
  have below := countP_le_length
    (p := fun handle => decide (vfs.mountpointOf handle = node)) (l := handles)
  unfold held
  omega

structure Counted (start : Vfs) (session : VfsSession) : Prop where
  counts : ∀ node, session.vfs.refCount node =
    start.refCount node + UInt32.ofNat (held start session.handles node)
  mountpoints : ∀ node, session.vfs.mountpointOf node = start.mountpointOf node
  live : session.vfs.allocated ⊆ start.allocated

theorem Counted.initial (start : Vfs) : Counted start ⟨start, []⟩ where
  counts := fun node => (UInt32.add_zero (start.refCount node)).symm
  mountpoints := fun _ => rfl
  live := fun _ member => member

theorem share_congr {vfs other : Vfs} (same : ∀ node, other.mountpointOf node = vfs.mountpointOf node)
    (handle node : Nat) : other.share handle node = vfs.share handle node := by
  unfold share
  rw [same]

theorem Counted.step {start : Vfs} {session next : VfsSession} {call : VfsFileCall}
    (counted : Counted start session) (legal : session.Admissible call)
    (stepped : session.step call = .ok next) : Counted start next := by
  cases call with
  | openNode drivers node =>
    obtain ⟨⟨status, after⟩, isOpened, isNext⟩ := bind_eq_ok stepped
    cases isNext
    have effect := vfsOpen_ok legal.1 isOpened
    constructor
    · intro other
      change after.refCount other = _
      rw [effect.counts other, counted.counts other, share_congr counted.mountpoints]
      by_cases succeeded : status = 0
      · rw [if_pos succeeded, if_pos succeeded, held_cons, UInt32.ofNat_add, UInt32.add_assoc]
      · rw [if_neg succeeded, if_neg succeeded, UInt32.add_zero]
    · intro other
      exact (effect.recounted.mountpointOf other).trans (counted.mountpoints other)
    · change after.allocated ⊆ start.allocated
      rw [effect.recounted.allocated]
      exact counted.live
  | closeNode drivers node =>
    obtain ⟨⟨result, after⟩, isClosed, isNext⟩ := bind_eq_ok stepped
    cases isNext
    have effect := vfsClose_ok legal.1 isClosed
    constructor
    · intro other
      have taken := effect.counts other
      rw [counted.counts other, share_congr counted.mountpoints,
        held_erase start legal.2.2 other, UInt32.ofNat_add, ← UInt32.add_assoc] at taken
      exact (UInt32.add_left_inj _).mp taken
    · intro other
      exact (effect.mountpoints other).trans (counted.mountpoints other)
    · change after.allocated ⊆ start.allocated
      rw [effect.allocated]
      by_cases unused : after.refCount node = 0
      · rw [if_pos unused]
        intro other member
        exact counted.live (mem_of_mem_erase member)
      · rw [if_neg unused]
        exact counted.live

theorem handles_step {session next : VfsSession} {call : VfsFileCall}
    (stepped : session.step call = .ok next) :
    next.handles.length ≤ session.handles.length + 1 := by
  cases call with
  | openNode drivers node =>
    obtain ⟨opened, _isOpened, isNext⟩ := bind_eq_ok stepped
    cases isNext
    change (if opened.1 = 0 then node :: session.handles else session.handles).length ≤ _
    by_cases succeeded : opened.1 = 0
    · rw [if_pos succeeded, length_cons]
    · rw [if_neg succeeded]
      omega
  | closeNode drivers node =>
    obtain ⟨closed, _isClosed, isNext⟩ := bind_eq_ok stepped
    cases isNext
    have shorter : (session.handles.erase node).length ≤ session.handles.length :=
      length_erase_le
    change (session.handles.erase node).length ≤ _
    omega

theorem handles_run {session final : VfsSession} {calls : List VfsFileCall}
    (run : Run step Admissible session calls final) :
    final.handles.length ≤ session.handles.length + calls.length := by
  induction run with
  | nil session => exact Nat.le_add_right _ _
  | cons call _legal stepped _rest ih =>
    have one := handles_step stepped
    rw [length_cons]
    omega

theorem Counted.toNat {start : Vfs} {session : VfsSession} (counted : Counted start session)
    {node bound : Nat} (few : session.handles.length ≤ bound)
    (fits : (start.refCount node).toNat + 2 * bound < 2 ^ 32) :
    (session.vfs.refCount node).toNat =
      (start.refCount node).toNat + held start session.handles node := by
  have added := held_le start session.handles node
  rw [counted.counts node, UInt32.toNat_add, UInt32.toNat_ofNat', Nat.add_mod_mod]
  exact Nat.mod_eq_of_lt (by omega)

/-- Counts over runs of opens and closes: in every state reached, each live node's
count is its first value plus one for each handle on it and one for each handle on
a node it is the mountpoint of, in 32-bit arithmetic and exactly as long as the sum
fits.  From there every call returns; a failed open changes no count, no open gives
a node back, and a close does so, after the driver's close, exactly when it leaves
the node's own count at 0. -/
theorem refCount_follows_handles {start : Vfs} {calls : List VfsFileCall} {final : VfsSession}
    (mounted : ∀ node ∈ start.allocated, start.mountpointOf node ≠ 0)
    (run : Run step Admissible ⟨start, []⟩ calls final) :
    (∀ node ∈ final.vfs.allocated,
      final.vfs.refCount node = start.refCount node +
        UInt32.ofNat (final.handles.count node) +
        UInt32.ofNat
          (final.handles.countP (fun handle => final.vfs.mountpointOf handle = node)) ∧
      ((start.refCount node).toNat + 2 * calls.length < 2 ^ 32 →
        (final.vfs.refCount node).toNat = (start.refCount node).toNat +
          final.handles.count node +
          final.handles.countP (fun handle => final.vfs.mountpointOf handle = node))) ∧
    (∀ drivers node, final.Admissible (.openNode drivers node) →
      ∃ status after, vfsOpen drivers node final.vfs = .ok (status, after) ∧
        (status ≠ 0 → ∀ other, after.refCount other = final.vfs.refCount other) ∧
        ∀ other, after.trace.count (.kfree other) = final.vfs.trace.count (.kfree other)) ∧
    (∀ drivers node, final.Admissible (.closeNode drivers node) →
      ∃ result after, vfsClose drivers node final.vfs = .ok (result, after) ∧
        after.trace = final.vfs.trace ++
          (if after.refCount node = 0 then closing drivers final.vfs node else [])) := by
  have counted : Counted start final := by
    apply run.invariant (Counted start) (Counted.initial start)
    intro session call next before legal stepped
    exact before.step legal stepped
  have stillMounted : ∀ node ∈ final.vfs.allocated, final.vfs.mountpointOf node ≠ 0 := by
    intro node live
    rw [counted.mountpoints node]
    exact mounted node (counted.live live)
  constructor
  · intro node _live
    have sums : held start final.handles node = final.handles.count node +
        final.handles.countP (fun handle => final.vfs.mountpointOf handle = node) :=
      (held_congr counted.mountpoints final.handles node).symm
    constructor
    · rw [UInt32.add_assoc, ← UInt32.ofNat_add, ← sums]
      exact counted.counts node
    · intro fits
      have few : final.handles.length ≤ calls.length := by
        have grown := handles_run run
        rw [length_nil, Nat.zero_add] at grown
        exact grown
      rw [Nat.add_assoc, ← sums]
      exact counted.toNat few fits
  · constructor
    · intro drivers node legal
      obtain ⟨status, after, opened⟩ := vfsOpen_returns drivers (stillMounted node legal.2)
      have effect := vfsOpen_ok legal.1 opened
      apply Exists.intro status
      apply Exists.intro after
      constructor
      · exact opened
      · constructor
        · intro failed other
          rw [effect.counts other, if_neg failed, UInt32.add_zero]
        · intro other
          rcases effect.trace with same | notified
          · rw [same]
          · rw [notified, count_append]
            rfl
    · intro drivers node legal
      obtain ⟨result, after, closed⟩ := vfsClose_returns drivers (stillMounted node legal.2.1)
      exact ⟨result, after, closed, (vfsClose_ok legal.1 closed).trace⟩

/-- Two live blocks: a root at 256, which is its own mountpoint, and a file at 512. -/
def rootAndFile : Vfs where
  nodes :=
    { parent := fun _ => 0
      left := fun _ => 0
      right := fun _ => 0
      subtreeMaxDepth := fun _ => 0
      update := fun _ => 0
      data := fun address =>
        { name := []
          inode := address
          type := if address = 256 then .directory else .file
          refCount := if address = 256 then 1 else 0
          mountpoint := 256
          mountPtr := 0
          operations := 1 }
      summary := fun _ => () }
  treeRoot := 0
  rootNode := 256
  supply := []
  allocated := [256, 512]
  trace := []

def answering (status : Int) : VfsDrivers := fun _ =>
  { close := some (fun _ => 0)
    openNode := some (fun _ => status)
    finddir := none
    readdir := none }

/-- The file is opened twice, the second time in vain; the root is opened, and the
file is closed. -/
def openAndClose : List VfsFileCall :=
  [.openNode (answering 0) 512, .openNode (answering (-5)) 512, .openNode (answering 0) 256,
    .closeNode (answering 0) 512]

theorem refCount_follows_handles_rootAndFile :
    ∃ final, Run step Admissible ⟨rootAndFile, []⟩ openAndClose final ∧
      (final.handles = [256] ∧
        final.vfs.trace = [.driverOpen 512, .driverOpen 512, .driverOpen 256, .driverClose 512,
          .kfree 512] ∧
        256 ∈ final.vfs.allocated) ∧
      (final.vfs.refCount 256).toNat = 1 + final.handles.count 256 +
        final.handles.countP (fun handle => final.vfs.mountpointOf handle = 256) := by
  have mounted : ∀ node ∈ rootAndFile.allocated, rootAndFile.mountpointOf node ≠ 0 := by decide
  obtain ⟨final, run, facts⟩ : ∃ final, Run step Admissible ⟨rootAndFile, []⟩ openAndClose final ∧
      (final.handles = [256] ∧
        final.vfs.trace = [.driverOpen 512, .driverOpen 512, .driverOpen 256, .driverClose 512,
          .kfree 512] ∧
        256 ∈ final.vfs.allocated) :=
    Run.exists_of_execute _ (by decide +kernel)
  have root := (refCount_follows_handles mounted run).1 256 facts.2.2
  exact ⟨final, run, facts, root.2 (by decide)⟩

end VfsSession

end Fesos
