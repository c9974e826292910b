/-
The names of new nodes, and the failures of vfs_mount.

vfs_finddir copies a component into the name field of a recycled block and neither
bounds nor ends the copy.  vfs_mount tests its path a second time where it should test
the node it found, and does not look at what the driver's open returns.
-/

import Fesos.VfsMount

set_option autoImplicit false

namespace Fesos

namespace Vfs

/-! ### Names -/

/-- The string that starts with the field is `text`, and its NUL is in the field. -/
def ReadsAs (field text : List Char) : Prop :=
  nul ∈ field ∧ field.takeWhile (fun character => character ≠ nul) = text

/-- The copy stays in the field, and the name reads as the component; a component that
does not fit may be refused. -/
def NamesNode (drivers : VfsDrivers) (directory : Nat) (name : List Char) (vfs : Vfs) : Prop :=
  vfsFinddir drivers directory (some name) vfs ≠ .error (.nameOverflow name.length) ∧
  ∀ new after, vfsFinddir drivers directory (some name) vfs = .ok (new, after) →
    new = 0 ∧ nameCapacity ≤ name.length ∨ ReadsAs (after.node new).name name

theorem takeWhile_behind {name tail : List Char} (free : nul ∉ name) :
    (name ++ tail).takeWhile (fun character => character ≠ nul) =
      name ++ tail.takeWhile (fun character => character ≠ nul) :=
  List.takeWhile_append_of_pos (fun _ member =>
    decide_eq_true (fun isNul => free (isNul ▸ member)))

theorem readsAs_copy_iff (name stale : List Char) :
    ReadsAs (name ++ stale.drop name.length) name ↔
      nul ∉ name ∧ stale[name.length]? = some nul := by
  rw [← Nat.add_zero name.length, ← List.getElem?_drop, Nat.add_zero]
  generalize stale.drop name.length = tail
  constructor
  · rintro ⟨ended, reads⟩
    have free : nul ∉ name := by
      intro member
      rw [← reads] at member
      exact absurd rfl (of_decide_eq_true (List.all_eq_true.mp List.all_takeWhile nul member))
    refine ⟨free, ?_⟩
    cases tail with
    | nil => exact absurd (List.append_nil name ▸ ended) free
    | cons first tail =>
      rw [takeWhile_behind free] at reads
      have stops : ¬ first ≠ nul := by
        intro goesOn
        rw [List.takeWhile_cons_of_pos (by simpa using goesOn)] at reads
        exact List.cons_ne_nil _ _ (List.append_cancel_left (reads.trans (List.append_nil name).symm))
      exact congrArg some (not_not.mp stops)
  · rintro ⟨free, stops⟩
    cases tail with
    | nil => cases stops
    | cons first tail =>
      rw [Option.some.inj stops]
      refine ⟨List.mem_append_right _ List.mem_cons_self, ?_⟩
      rw [takeWhile_behind free, List.takeWhile_cons_of_neg (by decide), List.append_nil]

section Names

variable {drivers : VfsDrivers} {directory mountpoint : Nat} {name : List Char}
  {nodeData : VfsNodeData} {vfs : Vfs} {block : VfsBlock} {rest : List VfsBlock}

/-- Where a node is created, its name is right if the component is shorter than the
field and the block's last user has left a NUL behind it. -/
theorem vfsFinddir_names_iff
    (creates : vfsFinddir drivers directory (some name) vfs =
      createNode mountpoint name nodeData vfs)
    (supply : vfs.supply = block :: rest) (real : block.address ≠ 0)
    (field : block.content.name.length = nameCapacity)
    (returns : name.length ≤ nameCapacity →
      ∃ result, createNode mountpoint name nodeData vfs = .ok result) :
    NamesNode drivers directory name vfs ↔
      nul ∉ name ∧ name.length < nameCapacity ∧ block.content.name[name.length]? = some nul := by
  have stored : ∀ {new after}, createNode mountpoint name nodeData vfs = .ok (new, after) →
      new ≠ 0 ∧ (after.node new).name = name ++ block.content.name.drop name.length := by
    intro new after creating
    obtain ⟨taken, others, inserted, isSupply, _, _, inserting, rfl, rfl⟩ :=
      createNode_ok creating
    obtain ⟨rfl, rfl⟩ := List.cons.inj (supply.symm.trans isSupply)
    have data := congrFun (AvlStore.avlInsert_keeps_data inserting) block.address
    exact ⟨real, congrArg VfsNode.name (data.trans ((prepared_node _ _).trans (if_pos rfl)))⟩
  unfold NamesNode
  rw [creates]
  constructor
  · rintro ⟨inside, named⟩
    have fits : name.length ≤ nameCapacity := by
      by_contra long
      apply inside
      rw [createNode_eq supply real, if_pos (not_le.mp long)]
    obtain ⟨⟨new, after⟩, creating⟩ := returns fits
    obtain ⟨nonzero, isName⟩ := stored creating
    have reads := (named new after creating).resolve_left (fun refused => nonzero refused.1)
    rw [isName, readsAs_copy_iff] at reads
    obtain ⟨short, _⟩ := List.getElem?_eq_some_iff.mp reads.2
    exact ⟨reads.1, field ▸ short, reads.2⟩
  · rintro ⟨free, short, stops⟩
    obtain ⟨result, creating⟩ := returns short.le
    refine ⟨?_, fun new after creating => Or.inr ?_⟩
    · rw [creating]
      exact nofun
    · rw [(stored creating).2, readsAs_copy_iff]
      exact ⟨free, stops⟩

end Names

/-- A directory and one block to create a node in. -/
def recyclingVfs (stale : List Char) : Vfs :=
  { VfsSession.freshVfs 1 with
    supply := [{ VfsSession.clearedBlock 512 1 with content := ⟨stale, 0, .file, 1, 0, 0, 0⟩ }] }

def clearedName : List Char := List.replicate 128 nul

def oldName : List Char := 'a' :: 'b' :: List.replicate 126 nul

theorem vfsFinddir_names_iff_cleared :
    NamesNode VfsSession.plainDrivers 256 ['a'] (recyclingVfs clearedName) :=
  (vfsFinddir_names_iff rfl rfl (by decide) (by decide +kernel) (fun _ => by
    obtain ⟨result, creating, _⟩ : ∃ result, createNode 256 ['a'] ⟨2, .directory, 1⟩
        (recyclingVfs clearedName) = .ok result ∧ True :=
      exists_of_checked _ (by decide +kernel)
    exact ⟨result, creating⟩)).mpr (by decide +kernel)

/-- The node of the component "a" in a block that held "ab" is called "ab". -/
theorem vfsFinddir_keeps_old_name :
    ¬ NamesNode VfsSession.plainDrivers 256 ['a'] (recyclingVfs oldName) := by
  obtain ⟨⟨new, after⟩, finding, real, isOld⟩ : ∃ result, vfsFinddir VfsSession.plainDrivers 256
      (some ['a']) (recyclingVfs oldName) = .ok result ∧ result.1 ≠ 0 ∧
        (result.2.node result.1).name = oldName :=
    exists_of_checked _ (by decide +kernel)
  rintro ⟨_, named⟩
  rcases named new after finding with refused | reads
  · exact real refused.1
  · rw [isOld] at reads
    exact absurd reads.2 (by decide)

/-! ### Mounting -/

section Kept

variable {drivers : VfsDrivers} {vfs after : Vfs} {path : List Char} {found current left : Nat}

theorem lookupFrom_kept (fuel : Nat)
    (run : lookupFrom drivers path fuel current left vfs = .ok (found, after)) :
    Kept vfs after := by
  induction fuel generalizing current left vfs with
  | zero => cases run
  | succ fuel ih =>
    have onwards : ∀ reached, Kept vfs reached.2 →
        (if reached.1 = 0 then pure (0, reached.2)
        else if pathAt path (componentEnd path left) = nul then pure reached
        else lookupFrom drivers path fuel reached.1 (componentEnd path left + 1) reached.2) =
          Except.ok (found, after) → Kept vfs after := by
      intro reached first rest
      split at rest
      · cases rest
        exact first
      split at rest
      · cases rest
        exact first
      · exact first.trans (ih rest)
    rw [lookupFrom] at run
    dsimp only at run
    split at run
    · obtain ⟨reached, descending, rest⟩ := bind_eq_ok run
      obtain ⟨searched, finding, last⟩ := bind_eq_ok descending
      have kept : Kept vfs searched.2 := vfsFinddir_kept finding
      apply onwards reached _ rest
      split at last
      · cases last
      split at last
      · cases last
        exact ⟨kept.supply, kept.same⟩
      · cases last
        exact kept
    · exact onwards (current, vfs) (Kept.refl vfs) run

/-- A lookup changes no node, in whatever state it finds the VFS. -/
theorem vfsLookup_kept {path : Option (List Char)}
    (run : vfsLookup drivers path vfs = .ok (found, after)) : Kept vfs after := by
  unfold vfsLookup at run
  split at run
  · cases run
    exact Kept.refl vfs
  split at run
  · cases run
    exact Kept.refl vfs
  split at run
  · exact lookupFrom_kept _ run
  · cases run
    exact Kept.refl vfs

end Kept

section Mounting

variable (drivers : VfsDrivers) (path : Option (List Char)) (fsRoot : Nat) (vfs : Vfs)

/-- The driver of the root has an open, and it returns 0 when the two nodes are linked. -/
def OpensRoot (mountStub : Nat) (found : Vfs) : Prop :=
  ∃ linked driverOpen, link mountStub fsRoot found = .ok linked ∧
    (linked.node fsRoot).operations ≠ 0 ∧
    (drivers (linked.node fsRoot).operations).openNode = some driverOpen ∧
    driverOpen (linked.node fsRoot) = 0

def ThroughNull (fault : Fault) : Prop := fault = .nullDereference ∨ fault = .wildCall 0

/-- No NULL is followed, and a mount that does not succeed is reported and leaves the
nodes alone. -/
def MountsCleanly : Prop :=
  (∀ fault, vfsMount drivers path fsRoot vfs = .error fault → ¬ ThroughNull fault) ∧
  ∀ status after, vfsMount drivers path fsRoot vfs = .ok (status, after) →
    (status = 0 ∧ ∃ mountStub found, vfsLookup drivers path vfs = .ok (mountStub, found) ∧
      OpensRoot drivers fsRoot mountStub found) ∨
    (status < 0 ∧ ∀ node, (∀ block ∈ vfs.supply, block.address ≠ node) →
      (after.node node).type = (vfs.node node).type ∧
      (after.node node).mountPtr = (vfs.node node).mountPtr ∧
      after.refCount node = vfs.refCount node)

/-- An argument is missing, or the lookup finds a node, and one that is no directory or
that the driver lets be mounted on. -/
def Mountable : Prop :=
  fsRoot = 0 ∨ path = none ∨
    match vfsLookup drivers path vfs with
    | .error fault => ¬ ThroughNull fault
    | .ok (mountStub, found) => mountStub ≠ 0 ∧
      ((found.node mountStub).type = .directory → OpensRoot drivers fsRoot mountStub found)

end Mounting

theorem link_error {mountStub fsRoot : Nat} {vfs : Vfs} {fault : Fault}
    (run : link mountStub fsRoot vfs = .error fault) : fault = .nullDereference := by
  unfold link retain at run
  dsimp only at run
  split at run
  · exact (Except.error.inj run).symm
  · cases run

section Outcomes

variable {drivers : VfsDrivers} {path : Option (List Char)} {fsRoot mountStub : Nat}
  {vfs found : Vfs}

theorem vfsMount_found (given : ¬ (fsRoot = 0 ∨ path = none))
    (looking : vfsLookup drivers path vfs = .ok (mountStub, found)) (real : mountStub ≠ 0) :
    vfsMount drivers path fsRoot vfs =
      if (found.node mountStub).type ≠ .directory then .ok (-ENOTDIR, found)
      else (do
        let linked ← link mountStub fsRoot found
        if (linked.node fsRoot).operations = 0 then .error .nullDereference
        else
          match (drivers (linked.node fsRoot).operations).openNode with
          | none => .error (.wildCall 0)
          | some _ => .ok (0, linked.log (.driverOpen fsRoot))) := by
  unfold vfsMount
  rw [if_neg given, looking, ok_bind]
  dsimp only
  rw [if_neg real]
  rfl

/-- On a directory `vfs_mount` returns 0 whatever the driver's open says, or follows a
NULL. -/
theorem vfsMount_directory (given : ¬ (fsRoot = 0 ∨ path = none))
    (looking : vfsLookup drivers path vfs = .ok (mountStub, found)) (real : mountStub ≠ 0)
    (isDirectory : (found.node mountStub).type = .directory) :
    (∃ fault, vfsMount drivers path fsRoot vfs = .error fault ∧ ThroughNull fault ∧
      ¬ OpensRoot drivers fsRoot mountStub found) ∨
    ∃ after, vfsMount drivers path fsRoot vfs = .ok (0, after) := by
  rw [vfsMount_found given looking real, if_neg (not_not.mpr isDirectory)]
  cases linking : link mountStub fsRoot found with
  | error fault =>
    refine Or.inl ⟨fault, rfl, Or.inl (link_error linking), ?_⟩
    rintro ⟨linked, _, isLinked, _⟩
    rw [linking] at isLinked
    cases isLinked
  | ok linked =>
    have same : ∀ {other}, link mountStub fsRoot found = .ok other → other = linked :=
      fun isOther => (Except.ok.inj (linking.symm.trans isOther)).symm
    rw [ok_bind]
    split
    · rename_i noTable
      refine Or.inl ⟨_, rfl, Or.inl rfl, ?_⟩
      rintro ⟨other, _, isOther, table, _⟩
      rw [same isOther] at table
      exact table noTable
    · split
      · rename_i noEntry
        refine Or.inl ⟨_, rfl, Or.inr rfl, ?_⟩
        rintro ⟨other, _, isOther, _, entry, _⟩
        rw [same isOther, noEntry] at entry
        cases entry
      · exact Or.inr ⟨_, rfl⟩

end Outcomes

/-- A driver that finds nothing. -/
def emptyDrivers : VfsDrivers := fun table =>
  { openDrivers table with finddir := some (fun _ _ => ⟨0, .file, 0⟩) }

end Vfs

end Fesos
