/-
The RAM file system of drivers/fs/ramfs.c: reading a file through vfs_read, and
ramfs_finddir and ramfs_readdir.

Memory is byte-addressed and pointers wrap at 64 bits.  `reads` is a ghost record of
the addresses that were read.  The entries `read` of the drivers' tables are given by
the address of the table.
-/

import Fesos.Strings
import Fesos.Vfs

set_option autoImplicit false

namespace Fesos

structure ByteMemory where
  bytes : Nat → UInt8
  reads : List Nat

/-- `*destination = *source`. -/
def ByteMemory.copyByte (memory : ByteMemory) (source destination : Nat) : ByteMemory :=
  { bytes := fun address =>
      if address = destination then memory.bytes source else memory.bytes address
    reads := source :: memory.reads }

abbrev VfsRead : Type := VfsNode → Nat → Nat → Nat → ByteMemory → Int × ByteMemory

abbrev VfsReaders : Type := Nat → Option VfsRead

def Vfs.vfsRead (readers : VfsReaders) (vfs : Vfs) (node offset size buffer : Nat)
    (memory : ByteMemory) : Int × ByteMemory :=
  if node = 0 then (-EINVAL, memory)
  else if size = 0 then (0, memory)
  else if (vfs.node node).type = .directory then (-EISDIR, memory)
  else if (vfs.node node).operations = 0 then (-EPERM, memory)
  else
    match readers (vfs.node node).operations with
    | none => (-EPERM, memory)
    | some read => read (vfs.node node) offset size buffer memory

structure RamfsFile where
  dataPtr : Nat
  size : Nat
  deriving DecidableEq, Repr

structure Ramfs where
  files : Nat → RamfsFile

namespace Ramfs

/-- The loop of `ramfs_read`: `nextBs` is read and `nextBd` written. -/
def copyBytes : Nat → Nat → Nat → ByteMemory → ByteMemory
  | 0, _, _, memory => memory
  | count + 1, nextBs, nextBd, memory =>
    copyBytes count (word (nextBs + 1)) (word (nextBd + 1)) (memory.copyByte nextBs nextBd)

def ramfsRead (ramfs : Ramfs) : VfsRead := fun node offset size buffer memory =>
  let file := ramfs.files node.inode
  if word (offset + size) > file.size then (-1, memory)
  else (0, copyBytes size (word (file.dataPtr + offset)) buffer memory)

/-! ### The copied bytes -/

section Copy

variable {count source destination : Nat} {memory : ByteMemory}

theorem copyBytes_outside (fits : destination + count ≤ 2 ^ 64) {address : Nat}
    (outside : address < destination ∨ destination + count ≤ address) :
    (copyBytes count source destination memory).bytes address = memory.bytes address := by
  induction count generalizing source destination memory with
  | zero => rfl
  | succ count ih =>
    have different : ¬ address = destination := by omega
    rw [copyBytes]
    by_cases last : count = 0
    · rw [last]
      exact if_neg different
    · have next : word (destination + 1) = destination + 1 := word_of_lt (by omega)
      rw [next, ih (by omega) (by omega)]
      exact if_neg different

/-- Two ranges without a common address: the destination holds what the source held. -/
theorem copyBytes_inside (sourceFits : source + count ≤ 2 ^ 64)
    (fits : destination + count ≤ 2 ^ 64)
    (apart : destination + count ≤ source ∨ source + count ≤ destination) {index : Nat}
    (inside : index < count) :
    (copyBytes count source destination memory).bytes (destination + index) =
      memory.bytes (source + index) := by
  induction count generalizing source destination memory index with
  | zero => omega
  | succ count ih =>
    rw [copyBytes]
    by_cases last : count = 0
    · have first : index = 0 := by omega
      rw [last, first]
      exact if_pos rfl
    have nextSource : word (source + 1) = source + 1 := word_of_lt (by omega)
    have nextDestination : word (destination + 1) = destination + 1 := word_of_lt (by omega)
    rw [nextSource, nextDestination]
    cases index with
    | zero =>
      rw [copyBytes_outside (by omega) (Or.inl (by omega))]
      exact if_pos rfl
    | succ index =>
      have shifted : (copyBytes count (source + 1) (destination + 1)
          (memory.copyByte source destination)).bytes (destination + 1 + index) =
            (memory.copyByte source destination).bytes (source + 1 + index) :=
        ih (by omega) (by omega) (by omega) (by omega)
      have untouched : ¬ source + 1 + index = destination := by omega
      have kept : (memory.copyByte source destination).bytes (source + 1 + index) =
          memory.bytes (source + 1 + index) := if_neg untouched
      rw [Nat.add_comm index 1, ← Nat.add_assoc, ← Nat.add_assoc, shifted, kept]

end Copy

/-! ### Reading a file -/

/-- The node is an open file of the RAM file system, and its data is an object in memory. -/
structure FileNode (ramfs : Ramfs) (readers : VfsReaders) (vfs : Vfs) (node : Nat)
    (file : RamfsFile) : Prop where
  real : node ≠ 0
  isFile : (vfs.node node).type = .file
  operations : (vfs.node node).operations ≠ 0
  driver : readers (vfs.node node).operations = some ramfs.ramfsRead
  isData : ramfs.files (vfs.node node).inode = file
  fits : file.dataPtr + file.size ≤ 2 ^ 64
  sized : file.size < 2 ^ 64

/-- What a read of `size` bytes at `offset` has to do. -/
structure ReadsFile (file : RamfsFile) (offset size buffer : Nat) (before : ByteMemory)
    (result : Int × ByteMemory) : Prop where
  status : result.1 = 0 ↔ offset + size ≤ file.size
  copied : offset + size ≤ file.size → ∀ index < size,
    result.2.bytes (buffer + index) = before.bytes (file.dataPtr + offset + index)
  refused : ¬ offset + size ≤ file.size → result.1 < 0 ∧ result.2.bytes = before.bytes ∧
    ∀ address ∈ result.2.reads, address ∈ before.reads ∨
      (file.dataPtr ≤ address ∧ address < file.dataPtr + file.size)

section Read

variable {ramfs : Ramfs} {readers : VfsReaders} {vfs : Vfs} {node : Nat} {file : RamfsFile}

theorem vfsRead_ramfs (opened : FileNode ramfs readers vfs node file) {offset size buffer : Nat}
    (memory : ByteMemory) (positive : 1 ≤ size) :
    vfs.vfsRead readers node offset size buffer memory =
      if word (offset + size) > file.size then (-1, memory)
      else (0, copyBytes size (word (file.dataPtr + offset)) buffer memory) := by
  have notDirectory : ¬ (vfs.node node).type = .directory := by
    rw [opened.isFile]
    exact fun same => by cases same
  unfold Vfs.vfsRead
  rw [if_neg opened.real, if_neg (by omega), if_neg notDirectory, if_neg opened.operations,
    opened.driver]
  rw [← opened.isData]
  rfl

end Read

/-- A read is right unless the 64-bit sum of offset and size wraps to a value within the file. -/
theorem ramfs_read_correct_iff (ramfs : Ramfs) (readers : VfsReaders) (vfs : Vfs) (node : Nat)
    (file : RamfsFile) (offset size buffer : Nat) (memory : ByteMemory)
    (opened : FileNode ramfs readers vfs node file) (positive : 1 ≤ size)
    (offsetBounded : offset < 2 ^ 64) (sizeBounded : size < 2 ^ 64)
    (room : offset + size ≤ file.size → buffer + size ≤ 2 ^ 64 ∧
      (buffer + size ≤ file.dataPtr ∨ file.dataPtr + file.size ≤ buffer)) :
    ReadsFile file offset size buffer memory
        (vfs.vfsRead readers node offset size buffer memory) ↔
      ¬ (2 ^ 64 ≤ offset + size ∧ word (offset + size) ≤ file.size) := by
  have sized := opened.sized
  have fits := opened.fits
  rw [vfsRead_ramfs opened memory positive]
  constructor
  · rintro reads ⟨wraps, small⟩
    have outside : ¬ offset + size ≤ file.size := by omega
    have status := reads.status
    rw [if_neg (Nat.not_lt.mpr small)] at status
    exact outside (status.mp rfl)
  · intro unwrapped
    by_cases inside : offset + size ≤ file.size
    · obtain ⟨bufferFits, apart⟩ := room inside
      have sum : word (offset + size) = offset + size := word_of_lt (by omega)
      have start : word (file.dataPtr + offset) = file.dataPtr + offset := word_of_lt (by omega)
      rw [sum, start, if_neg (Nat.not_lt.mpr inside)]
      constructor
      · exact ⟨fun _ => inside, fun _ => rfl⟩
      · intro _ index within
        exact copyBytes_inside (by omega) bufferFits (by omega) within
      · exact fun outside => absurd inside outside
    · have refused : word (offset + size) > file.size := by
        by_cases wraps : 2 ^ 64 ≤ offset + size
        · by_contra small
          exact unwrapped ⟨wraps, Nat.not_lt.mp small⟩
        · rw [word_of_lt (by omega)]
          omega
      rw [if_pos refused]
      constructor
      · constructor
        · intro impossible
          cases impossible
        · exact fun within => absurd within inside
      · exact fun within => absurd within inside
      · intro _
        have negative : (-1 : Int) < 0 := by decide
        exact ⟨negative, rfl, fun _ member => Or.inl member⟩

def testNode : Vfs :=
  { nodes :=
      { parent := fun _ => 0
        left := fun _ => 0
        right := fun _ => 0
        subtreeMaxDepth := fun _ => 0
        update := fun _ => 0
        data := fun _ => ⟨"test".toList, 0, .file, 1, 256, 0, 16⟩
        summary := fun _ => () }
    treeRoot := 0
    rootNode := 256
    supply := []
    allocated := []
    trace := [] }

def testRamfs : Ramfs := { files := fun _ => ⟨0x1000, 8⟩ }

def testReaders : VfsReaders := fun _ => some testRamfs.ramfsRead

def testMemory : ByteMemory := { bytes := UInt8.ofNat, reads := [] }

theorem testNode_opened : FileNode testRamfs testReaders testNode 512 ⟨0x1000, 8⟩ :=
  ⟨by decide, rfl, by decide, rfl, rfl, by decide, by decide⟩

theorem ramfs_read_correct_iff_middle :
    ReadsFile ⟨0x1000, 8⟩ 2 3 0x2000 testMemory
      (testNode.vfsRead testReaders 512 2 3 0x2000 testMemory) :=
  (ramfs_read_correct_iff testRamfs testReaders testNode 512 ⟨0x1000, 8⟩ 2 3 0x2000 testMemory
    testNode_opened (by decide) (by decide) (by decide) (fun _ => by decide)).mpr (by decide)

/-- Eight bytes from the eighth address before the end of the 64-bit range are accepted. -/
theorem ramfs_read_wraps :
    ¬ ReadsFile ⟨0x1000, 8⟩ (2 ^ 64 - 8) 8 0x2000 testMemory
      (testNode.vfsRead testReaders 512 (2 ^ 64 - 8) 8 0x2000 testMemory) := by
  intro reads
  have status := reads.status
  rw [vfsRead_ramfs testNode_opened testMemory (by decide), if_neg (by decide)] at status
  exact absurd (status.mp rfl) (by decide)

/-! ### Directories -/

def DIRCUTOFF : Nat := 0x10000

structure RamfsDirent where
  name : List Char
  isDirectory : Bool
  index : Nat
  deriving DecidableEq, Repr

/-- The array `dircont` has `contcount` entries; at the other indices is what the memory
around it holds. -/
structure RamfsDir where
  dircont : Nat → RamfsDirent
  contcount : Nat

structure Tables extends Ramfs where
  dirs : Nat → RamfsDir
  fileOps : Nat
  dirOps : Nat

def signedBytes (text : List Char) : List Int8 :=
  text.map (fun character => Int8.ofInt character.toNat)

namespace Tables

def directory (tables : Tables) (node : VfsNode) : RamfsDir :=
  tables.dirs (UInt32.ofNat node.inode - UInt32.ofNat DIRCUTOFF).toNat

def nodeData (tables : Tables) (entry : RamfsDirent) : VfsNodeData :=
  if entry.isDirectory then ⟨entry.index + DIRCUTOFF, .directory, tables.dirOps⟩
  else ⟨entry.index, .file, tables.fileOps⟩

def ramfsFinddir (tables : Tables) (node : VfsNode) (name : List Char) : VfsNodeData :=
  let dir := tables.directory node
  let found := (List.range dir.contcount).find? (fun dirEnt =>
    strNcmp (signedBytes (dir.dircont dirEnt).name) (signedBytes name)
      (dir.dircont dirEnt).name.length name.length = .ok 0)
  match found with
  | some dirEnt => tables.nodeData (dir.dircont dirEnt)
  | none => ⟨0, .file, 0⟩

/-- The index is not compared with anything, and the result is always 0. -/
def ramfsReaddir (tables : Tables) (node : VfsNode) (index : Nat) (dirent : VfsDirent) :
    Int × VfsDirent :=
  let ramDirent := (tables.directory node).dircont index
  let name := ramDirent.name ++ dirent.name.drop ramDirent.name.length
  if ramDirent.isDirectory then
    (0, ⟨name, ramDirent.index + DIRCUTOFF, .directory, 0⟩)
  else (0, ⟨name, ramDirent.index, .file, (tables.files ramDirent.index).size⟩)

def drivers (tables : Tables) : VfsDrivers := fun table =>
  if table = tables.dirOps then
    { close := some (fun _ => 0)
      openNode := none
      finddir := some tables.ramfsFinddir
      readdir := some tables.ramfsReaddir }
  else { close := some (fun _ => 0), openNode := none, finddir := none, readdir := none }

/-- The node is a directory of the RAM file system. -/
structure DirectoryNode (tables : Tables) (vfs : Vfs) (node : Nat) : Prop where
  real : node ≠ 0
  isDirectory : (vfs.node node).type = .directory
  operations : (vfs.node node).operations = tables.dirOps
  table : tables.dirOps ≠ 0

/-- The same tables but for the memory behind the entries of the node's directory. -/
def Agrees (tables other : Tables) (node : VfsNode) : Prop :=
  other.dirOps = tables.dirOps ∧
    (other.directory node).contcount = (tables.directory node).contcount ∧
    ∀ index < (tables.directory node).contcount,
      (other.directory node).dircont index = (tables.directory node).dircont index

/-- What a loop over `vfs_readdir` counts on.  Nothing behind the array is read where the
result is the same whatever is there. -/
structure Lists (tables : Tables) (vfs : Vfs) (node : Nat) : Prop where
  reported : ∀ index < (tables.directory (vfs.node node)).contcount, ∀ dirent, ∃ entry,
    vfs.vfsReaddir tables.drivers node index (some dirent) = (1, some entry) ∧
    let name := ((tables.directory (vfs.node node)).dircont index).name
    entry.name.take name.length = name ∧
      entry.inode = (tables.ramfsFinddir (vfs.node node) name).inode ∧
      entry.type = (tables.ramfsFinddir (vfs.node node) name).type
  complete : ∀ name, (tables.ramfsFinddir (vfs.node node) name).operations ≠ 0 →
    ∃ index < (tables.directory (vfs.node node)).contcount,
      ((tables.directory (vfs.node node)).dircont index).name = name
  ends : ∀ other, tables.Agrees other (vfs.node node) → ∀ dirent,
    (vfs.vfsReaddir other.drivers node (tables.directory (vfs.node node)).contcount
      (some dirent)).1 = 0 ∧
    vfs.vfsReaddir other.drivers node (tables.directory (vfs.node node)).contcount
      (some dirent) =
    vfs.vfsReaddir tables.drivers node (tables.directory (vfs.node node)).contcount (some dirent)

section Directory

variable {tables other : Tables} {vfs : Vfs} {node : Nat}

theorem vfsReaddir_ramfs (opened : DirectoryNode tables vfs node)
    (sameTable : other.dirOps = tables.dirOps) (index : Nat) (dirent : VfsDirent) :
    vfs.vfsReaddir other.drivers node index (some dirent) =
      ((other.ramfsReaddir (vfs.node node) index dirent).1,
        some (other.ramfsReaddir (vfs.node node) index dirent).2) := by
  have same : vfs.redirect node = node := by
    unfold Vfs.redirect
    rw [opened.isDirectory]
    exact if_neg (fun both => absurd both.1 (by decide))
  have entry : Vfs.operation other.drivers VfsOps.readdir (vfs.node node) =
      some other.ramfsReaddir := by
    unfold Vfs.operation drivers
    rw [opened.operations, if_neg opened.table, sameTable, if_pos rfl]
  unfold Vfs.vfsReaddir
  dsimp only
  rw [if_neg opened.real, same, if_neg (not_not.mpr opened.isDirectory), entry]

/-- What is reported of an entry is what its name resolves to, when the names differ. -/
theorem ramfsReaddir_agrees {directory : VfsNode} {dir : RamfsDir} {index : Nat}
    (dirent : VfsDirent) (isDir : tables.directory directory = dir)
    (inside : index < dir.contcount)
    (plain : ∀ position < dir.contcount, 0 ∉ signedBytes (dir.dircont position).name)
    (distinct : ∀ position < index,
      signedBytes (dir.dircont position).name ≠ signedBytes (dir.dircont index).name) :
    let data := tables.ramfsFinddir directory (dir.dircont index).name
    (tables.ramfsReaddir directory index dirent).2.inode = data.inode ∧
      (tables.ramfsReaddir directory index dirent).2.type = data.type := by
  have compared : ∀ position < dir.contcount,
      (strNcmp (signedBytes (dir.dircont position).name) (signedBytes (dir.dircont index).name)
        (dir.dircont position).name.length (dir.dircont index).name.length = .ok 0 ↔
      signedBytes (dir.dircont position).name = signedBytes (dir.dircont index).name) := by
    intro position before
    have compares := strNcmp_eq (signedBytes (dir.dircont position).name)
      (signedBytes (dir.dircont index).name)
    unfold signedBytes at compares ⊢
    rw [List.length_map, List.length_map] at compares
    rw [compares, Except.ok.injEq]
    exact firstDifference_eq_zero_iff (plain position before) (plain index inside)
  have found : (List.range dir.contcount).find? (fun dirEnt =>
      strNcmp (signedBytes (dir.dircont dirEnt).name) (signedBytes (dir.dircont index).name)
        (dir.dircont dirEnt).name.length (dir.dircont index).name.length = .ok 0) =
      some index := by
    rw [List.find?_range_eq_some]
    refine ⟨decide_eq_true ((compared index inside).mpr rfl), List.mem_range.mpr inside, ?_⟩
    intro position before
    rw [decide_eq_false (fun zero => distinct position before
      ((compared position (before.trans inside)).mp zero))]
    rfl
  unfold ramfsFinddir ramfsReaddir nodeData
  dsimp only
  rw [isDir, found]
  dsimp only
  split <;> exact ⟨rfl, rfl⟩

/-- The tables with another entry behind the array. -/
def behind (tables : Tables) (node : VfsNode) (index : Nat) : Tables :=
  { tables with
    dirs := fun _ =>
      { tables.directory node with
        dircont := Function.update (tables.directory node).dircont
          (tables.directory node).contcount ⟨[], false, index⟩ } }

theorem agrees_behind (tables : Tables) (node : VfsNode) (index : Nat) :
    tables.Agrees (tables.behind node index) node :=
  ⟨rfl, rfl, fun _ inside => Function.update_of_ne (Nat.ne_of_lt inside) _ _⟩

/-- No directory is listed: the call for the index after the last entry reads behind the
array. -/
theorem ramfsReaddir_never_lists (opened : DirectoryNode tables vfs node) :
    ¬ Lists tables vfs node := by
  intro lists
  have same : ∀ index dirent, ((tables.behind (vfs.node node) index).ramfsReaddir (vfs.node node)
      (tables.directory (vfs.node node)).contcount dirent).2 =
        (tables.ramfsReaddir (vfs.node node)
          (tables.directory (vfs.node node)).contcount dirent).2 := by
    intro index dirent
    have agrees := agrees_behind tables (vfs.node node) index
    have equal := (lists.ends _ agrees dirent).2
    rw [vfsReaddir_ramfs opened agrees.1, vfsReaddir_ramfs opened rfl] at equal
    exact Option.some.inj (Prod.mk.inj equal).2
  have inode : ∀ index dirent, ((tables.behind (vfs.node node) index).ramfsReaddir (vfs.node node)
      (tables.directory (vfs.node node)).contcount dirent).2.inode = index := by
    intro index dirent
    have entry : ((tables.behind (vfs.node node) index).directory (vfs.node node)).dircont
        (tables.directory (vfs.node node)).contcount = ⟨[], false, index⟩ :=
      Function.update_self _ _ _
    unfold ramfsReaddir
    rw [entry]
    rfl
  have clash := congrArg VfsDirent.inode
    ((same 0 ⟨[], 0, .file, 0⟩).trans (same 1 ⟨[], 0, .file, 0⟩).symm)
  rw [inode, inode] at clash
  cases clash

end Directory

/-- The tables of `ramfs_init`. -/
def initial : Tables :=
  { testRamfs with
    dirs := fun index =>
      if index = 0 then ⟨fun _ => ⟨"subdirtest".toList, true, 1⟩, 1⟩
      else ⟨fun _ => ⟨"test".toList, false, 0⟩, 1⟩
    fileOps := 8
    dirOps := 16 }

/-- The root that `ramfs_get_fs` makes. -/
def initialRoot : Vfs :=
  testNode.setNode 256 ⟨"ramfs_root".toList, 0x10000, .directory, 1, 256, 0, 16⟩

theorem initialRoot_opened : DirectoryNode initial initialRoot 256 :=
  ⟨by decide, rfl, rfl, by decide⟩

theorem ramfsReaddir_agrees_initialRoot :
    (initial.ramfsReaddir (initialRoot.node 256) 0 ⟨[], 0, .file, 0⟩).2.inode =
      (initial.ramfsFinddir (initialRoot.node 256) "subdirtest".toList).inode :=
  (ramfsReaddir_agrees ⟨[], 0, .file, 0⟩ rfl (by decide) (by decide) (by decide)).1

theorem ramfsReaddir_never_lists_initialRoot : ¬ Lists initial initialRoot 256 :=
  ramfsReaddir_never_lists initialRoot_opened

/-- The first call finds the only entry and returns 0. -/
theorem ramfsReaddir_returns_end :
    (initialRoot.vfsReaddir initial.drivers 256 0 (some ⟨[], 0, .file, 0⟩)).1 = 0 ∧
      ¬ Lists initial initialRoot 256 := by
  refine ⟨rfl, fun lists => ?_⟩
  obtain ⟨entry, reported, _⟩ := lists.reported 0 (by decide) ⟨[], 0, .file, 0⟩
  exact absurd (Prod.mk.inj reported).1 (by decide)

end Tables

end Ramfs

end Fesos
