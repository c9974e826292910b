/-
The scanner of vfs_lookup in kernel/vfs.c against the list of names in a path.

The scanner is written with what it does at a name as a parameter, with its two
32-bit indices, and with reads that fail behind the NUL of the path.  It is the
same as folding the parameter over the non-empty parts between slashes, for every
path whose length stays below the largest 32-bit value.
-/

import Fesos.Vfs

set_option autoImplicit false

namespace Fesos.Vfs

open List

/-! ### The scanner -/

/-- A character of a NUL-terminated path.  There is nothing to read behind the NUL. -/
def readPath (path : List Char) (index : Nat) : Except Fault Char :=
  if index ≤ path.length then .ok (pathAt path index) else .error (.pageFault index)

def strLen (path : List Char) : Nat → Nat → Except Fault Nat
  | 0, _ => .error .outOfFuel
  | fuel + 1, len => do
    let character ← readPath path len
    if character ≠ nul then strLen path fuel (len + 1) else pure len

/-- `while (path[right_ptr] != '/' && path[right_ptr] != 0) right_ptr++`. -/
def scanComponent (path : List Char) : Nat → UInt32 → Except Fault UInt32
  | 0, _ => .error .outOfFuel
  | fuel + 1, right => do
    let character ← readPath path right.toNat
    if character ≠ '/' ∧ character ≠ nul then scanComponent path fuel (right + 1)
    else pure right

section Scanner

variable {State : Type} (step : Nat → List Char → State → Except Fault (Nat × State))

def lookupLoop (path : List Char) :
    Nat → Nat → UInt32 → UInt32 → State → Except Fault (Nat × State)
  | 0, _, _, _, _ => .error .outOfFuel
  | fuel + 1, currentNode, left, right, state => do
    let right ← scanComponent path (path.length + 1) right
    let reached ←
      if left - right > 1 then
        step currentNode ((path.drop left.toNat).take (right - left).toNat) state
      else pure (currentNode, state)
    if reached.1 = 0 then pure (0, reached.2)
    else do
      let character ← readPath path right.toNat
      if character = nul then pure reached
      else lookupLoop path fuel reached.1 (right + 1) (right + 1) reached.2

def lookupScan (path : List Char) (rootNode : Nat) (state : State) :
    Except Fault (Nat × State) := do
  let pathLen ← strLen path (path.length + 1) 0
  if pathLen = 0 then pure (0, state)
  else do
    let first ← readPath path 0
    if first = '/' then lookupLoop step path (path.length + 1) rootNode 1 1 state
    else pure (0, state)

/-! ### The names of a path -/

def walk : List (List Char) → Nat → State → Except Fault (Nat × State)
  | [], node, state => .ok (node, state)
  | name :: names, node, state => do
    let reached ← step node name state
    if reached.1 = 0 then .ok (0, reached.2) else walk names reached.1 reached.2

end Scanner

/-- The maximal non-empty parts without a slash. -/
def segments (path : List Char) : List (List Char) :=
  (path.splitOn '/').filter (fun segment => segment ≠ [])

theorem slash_free {name : List Char} (free : '/' ∉ name) :
    ∀ character ∈ name, (character == '/') = false := by
  intro character member
  exact beq_eq_false_iff_ne.mpr (fun same => free (same ▸ member))

theorem segments_last {name : List Char} (free : '/' ∉ name) :
    segments name = if name = [] then [] else [name] := by
  unfold segments List.splitOn
  rw [splitOnP_eq_singleton (slash_free free)]
  by_cases empty : name = []
  · rw [if_pos empty, empty]
    rfl
  · rw [if_neg empty, filter_cons_of_pos (by exact decide_eq_true empty), filter_nil]

theorem segments_cons {name : List Char} (free : '/' ∉ name) (more : List Char) :
    segments (name ++ '/' :: more) =
      if name = [] then segments more else name :: segments more := by
  unfold segments List.splitOn
  rw [splitOnP_append_cons_of_forall_mem (slash_free free) '/' rfl]
  by_cases empty : name = []
  · rw [if_pos empty, empty]
    rfl
  · rw [if_neg empty, filter_cons_of_pos (by exact decide_eq_true empty)]

/-! ### Indices -/

theorem index_toNat {index : Nat} (small : index < 2 ^ 32) : (UInt32.ofNat index).toNat = index :=
  UInt32.toNat_ofNat_of_lt' small

theorem index_succ (index : Nat) : UInt32.ofNat index + 1 = UInt32.ofNat (index + 1) :=
  (UInt32.ofNat_add index 1).symm

theorem index_diff {left length : Nat} (small : left + length < 2 ^ 32) :
    (UInt32.ofNat (left + length) - UInt32.ofNat left).toNat = length := by
  rw [UInt32.toNat_sub, index_toNat small, index_toNat (by omega)]
  omega

/-- The test for a name: the difference wraps unless it is 0, and the length of the path keeps
it away from 1. -/
theorem seen_iff {left length : Nat} (small : left + length < 2 ^ 32 - 1) :
    UInt32.ofNat left - UInt32.ofNat (left + length) > 1 ↔ 0 < length := by
  have difference : (UInt32.ofNat left - UInt32.ofNat (left + length)).toNat =
      (2 ^ 32 - (left + length) + left) % 2 ^ 32 := by
    rw [UInt32.toNat_sub, index_toNat (by omega), index_toNat (by omega)]
  change 1 < UInt32.ofNat left - UInt32.ofNat (left + length) ↔ _
  rw [UInt32.lt_iff_toNat_lt, difference]
  change 1 < _ ↔ _
  omega

/-! ### Reads -/

section Reads

variable {path front rest name : List Char}

theorem readPath_append (front rest : List Char) :
    readPath (front ++ rest) front.length = .ok (pathAt rest 0) := by
  unfold readPath pathAt
  rw [length_append, if_pos (Nat.le_add_right _ _), getD_append_right _ _ _ _ (Nat.le_refl _),
    Nat.sub_self]

theorem strLen_from (noNul : nul ∉ rest) (fuel : Nat) (enough : rest.length < fuel) :
    strLen (front ++ rest) fuel front.length = .ok (front ++ rest).length := by
  induction fuel generalizing front rest with
  | zero => omega
  | succ fuel ih =>
    rw [strLen, readPath_append, ok_bind]
    cases rest with
    | nil =>
      rw [if_neg (fun differs => differs rfl), append_nil]
      rfl
    | cons character rest =>
      have real : character ≠ nul := fun isNul => noNul (isNul ▸ mem_cons_self)
      have further : strLen (front ++ [character] ++ rest) fuel (front ++ [character]).length =
          .ok (front ++ [character] ++ rest).length :=
        ih (fun member => noNul (mem_cons_of_mem _ member)) (Nat.lt_of_succ_lt_succ enough)
      rw [append_assoc, length_append, length_singleton] at further
      change (if character ≠ nul then strLen (front ++ character :: rest) fuel
        (front.length + 1) else _) = _
      rw [if_pos real]
      exact further

theorem componentEnd_append (front rest : List Char) :
    componentEnd (front ++ rest) front.length = front.length +
      (rest.takeWhile (fun character => character ≠ '/' && character ≠ nul)).length := by
  unfold componentEnd
  rw [drop_left]

theorem scanComponent_end (small : (front ++ rest).length < 2 ^ 32) (fuel : Nat)
    (enough : rest.length < fuel) :
    scanComponent (front ++ rest) fuel (UInt32.ofNat front.length) =
      .ok (UInt32.ofNat (componentEnd (front ++ rest) front.length)) := by
  induction fuel generalizing front rest with
  | zero => omega
  | succ fuel ih =>
    have index : (UInt32.ofNat front.length).toNat = front.length := by
      apply index_toNat
      rw [length_append] at small
      omega
    rw [scanComponent, index, readPath_append, ok_bind, componentEnd_append]
    cases rest with
    | nil =>
      rw [if_neg (fun both => both.2 rfl)]
      rfl
    | cons character rest =>
      change (if character ≠ '/' ∧ character ≠ nul then _ else _) = _
      by_cases go : character ≠ '/' ∧ character ≠ nul
      · have split : front ++ character :: rest = front ++ [character] ++ rest := by
          rw [append_assoc]
          rfl
        have further : scanComponent (front ++ [character] ++ rest) fuel
            (UInt32.ofNat (front ++ [character]).length) =
              .ok (UInt32.ofNat
                (componentEnd (front ++ [character] ++ rest) (front ++ [character]).length)) :=
          ih (split ▸ small) (Nat.lt_of_succ_lt_succ enough)
        rw [componentEnd_append, length_append, length_singleton] at further
        rw [if_pos go, index_succ, split, further, takeWhile_cons_of_pos (by simpa using go),
          length_cons, Nat.add_assoc, Nat.add_comm 1]
      · rw [if_neg go, takeWhile_cons_of_neg (by simpa using go)]
        rfl

theorem componentEnd_le {index : Nat} (inside : index ≤ path.length) :
    componentEnd path index ≤ path.length := by
  have taken := (takeWhile_sublist (l := path.drop index)
    (fun character => character ≠ '/' && character ≠ nul)).length_le
  rw [length_drop] at taken
  unfold componentEnd
  omega

end Reads

/-! ### The scanner makes the walk -/

theorem next_name (rest : List Char) : ∃ name tail, rest = name ++ tail ∧ '/' ∉ name ∧
    (tail = [] ∨ ∃ more, tail = '/' :: more) := by
  induction rest with
  | nil => exact ⟨[], [], rfl, not_mem_nil, Or.inl rfl⟩
  | cons character rest ih =>
    by_cases slash : character = '/'
    · exact ⟨[], character :: rest, rfl, not_mem_nil, Or.inr ⟨rest, by rw [slash]⟩⟩
    obtain ⟨name, tail, split, free, ends⟩ := ih
    refine ⟨character :: name, tail, by rw [split]; rfl, ?_, ends⟩
    intro member
    rcases mem_cons.mp member with same | later
    · exact slash same.symm
    · exact free later

section Walk

variable {State : Type} (step : Nat → List Char → State → Except Fault (Nat × State))
  {front name : List Char}

/-- One turn of the scanner, with indices that are not cut. -/
theorem lookupLoop_turn {path : List Char} {left : Nat} (inside : left ≤ path.length)
    (small : path.length < 2 ^ 32 - 1) (fuel node : Nat) (state : State) :
    lookupLoop step path (fuel + 1) node (UInt32.ofNat left) (UInt32.ofNat left) state =
      (if componentSeen left (componentEnd path left) then
        step node ((path.drop left).take (componentEnd path left - left)) state
      else .ok (node, state)) >>= fun reached =>
        if reached.1 = 0 then .ok (0, reached.2)
        else if pathAt path (componentEnd path left) = nul then .ok reached
        else lookupLoop step path fuel reached.1 (UInt32.ofNat (componentEnd path left + 1))
          (UInt32.ofNat (componentEnd path left + 1)) reached.2 := by
  obtain ⟨length, isEnd⟩ : ∃ length, componentEnd path left = left + length := ⟨_, rfl⟩
  have upTo := componentEnd_le inside
  have scanned : scanComponent path (path.length + 1) (UInt32.ofNat left) =
      .ok (UInt32.ofNat (componentEnd path left)) := by
    have whole := take_append_drop left path
    have front : (path.take left).length = left := length_take_of_le inside
    have scan := scanComponent_end (whole.symm ▸ Nat.lt_of_lt_of_le small (Nat.sub_le _ _))
      (path.length + 1) (by rw [length_drop]; omega)
    rw [whole, front] at scan
    exact scan
  have atEnd : readPath path (componentEnd path left) = .ok (pathAt path (componentEnd path left)) :=
    if_pos upTo
  rw [lookupLoop, scanned, ok_bind, index_toNat (by omega), index_toNat (by omega), atEnd,
    index_succ]
  rw [isEnd] at upTo ⊢
  rw [index_diff (by omega), Nat.add_sub_cancel_left]
  by_cases seen : componentSeen left (left + length)
  · rw [if_pos seen]
    have wrapped : UInt32.ofNat left - UInt32.ofNat (left + length) > 1 := seen
    rw [if_pos wrapped]
    rfl
  rw [if_neg seen]
  have level : ¬ UInt32.ofNat left - UInt32.ofNat (left + length) > 1 := seen
  rw [if_neg level]
  rfl

theorem componentEnd_name {tail : List Char} (noSlash : '/' ∉ name) (noNul : nul ∉ name)
    (ends : tail = [] ∨ ∃ more, tail = '/' :: more) :
    componentEnd (front ++ (name ++ tail)) front.length = front.length + name.length := by
  have plain : ∀ character ∈ name, (decide (character ≠ '/') && decide (character ≠ nul)) = true := by
    intro character member
    rw [Bool.and_eq_true, decide_eq_true_eq, decide_eq_true_eq]
    constructor
    · exact fun same => noSlash (same ▸ member)
    · exact fun same => noNul (same ▸ member)
  rw [componentEnd_append, takeWhile_append_of_pos plain]
  rcases ends with last | ⟨more, goesOn⟩
  · rw [last, takeWhile_nil, append_nil]
  · rw [goesOn, takeWhile_cons_of_neg (by decide), append_nil]

/-- The same turn in terms of the name that comes next. -/
theorem lookupLoop_name {tail : List Char} (noSlash : '/' ∉ name) (noNul : nul ∉ name)
    (ends : tail = [] ∨ ∃ more, tail = '/' :: more)
    (small : (front ++ (name ++ tail)).length < 2 ^ 32 - 1) (fuel node : Nat) (state : State) :
    lookupLoop step (front ++ (name ++ tail)) (fuel + 1) node (UInt32.ofNat front.length)
        (UInt32.ofNat front.length) state =
      (if name = [] then .ok (node, state) else step node name state) >>= fun reached =>
        if reached.1 = 0 then .ok (0, reached.2)
        else if pathAt tail 0 = nul then .ok reached
        else lookupLoop step (front ++ (name ++ tail)) fuel reached.1
          (UInt32.ofNat (front.length + name.length + 1))
          (UInt32.ofNat (front.length + name.length + 1)) reached.2 := by
  have lengths := small
  rw [length_append, length_append] at lengths
  have atEnd : pathAt (front ++ (name ++ tail)) (front.length + name.length) = pathAt tail 0 := by
    unfold pathAt
    rw [← append_assoc, ← length_append,
      getD_append_right _ _ _ _ (Nat.le_refl _), Nat.sub_self]
  have seen : componentSeen front.length (front.length + name.length) ↔ 0 < name.length :=
    seen_iff (by omega)
  rw [lookupLoop_turn step (by rw [length_append]; omega) small,
    componentEnd_name noSlash noNul ends, Nat.add_sub_cancel_left, drop_left, take_left,
    atEnd]
  by_cases empty : name = []
  · have unseen : ¬ componentSeen front.length (front.length + name.length) := by
      rw [seen, empty]
      exact Nat.lt_irrefl 0
    rw [if_neg unseen, if_pos empty]
  · rw [if_pos (seen.mpr (length_pos_iff.mpr empty)), if_neg empty]

/-- The turns of the scanner from an index on are the walk over the names from there. -/
theorem lookupLoop_eq_walk (fuel : Nat) {rest : List Char} {node : Nat} (state : State)
    (noNul : nul ∉ rest) (small : (front ++ rest).length < 2 ^ 32 - 1)
    (enough : rest.length < fuel) (real : node ≠ 0) :
    lookupLoop step (front ++ rest) fuel node (UInt32.ofNat front.length)
        (UInt32.ofNat front.length) state =
      walk step (segments rest) node state := by
  induction fuel generalizing front rest node state with
  | zero => omega
  | succ fuel ih =>
    obtain ⟨name, tail, split, free, ends⟩ := next_name rest
    rw [split] at noNul small enough ⊢
    have nameNul : nul ∉ name := fun member => noNul (mem_append_left tail member)
    rw [lookupLoop_name step free nameNul ends small]
    rcases ends with last | ⟨more, goesOn⟩
    · rw [last] at noNul small enough ⊢
      have atNul : pathAt [] 0 = nul := rfl
      rw [append_nil, segments_last free]
      by_cases empty : name = []
      · rw [if_pos empty, if_pos empty, ok_bind, if_neg real, if_pos atNul]
        rfl
      rw [if_neg empty, if_neg empty, walk]
      apply bind_congr
      intro reached
      by_cases null : reached.1 = 0
      · rw [if_pos null, if_pos null]
      · rw [if_neg null, if_neg null, if_pos atNul]
        rfl
    · rw [goesOn] at noNul small enough ⊢
      have notNul : ¬ pathAt ('/' :: more) 0 = nul := by
        change ¬ '/' = nul
        decide
      have regroup : front ++ (name ++ '/' :: more) = front ++ (name ++ ['/']) ++ more := by
        rw [append_assoc, append_assoc]
        rfl
      have moreNul : nul ∉ more := fun member =>
        noNul (mem_append_right name (mem_cons_of_mem _ member))
      have moreEnough : more.length < fuel := by
        rw [length_append, length_cons] at enough
        omega
      have next : ∀ reached state, reached ≠ 0 →
          lookupLoop step (front ++ (name ++ '/' :: more)) fuel reached
            (UInt32.ofNat (front.length + name.length + 1))
            (UInt32.ofNat (front.length + name.length + 1)) state =
              walk step (segments more) reached state := by
        intro reached state nonNull
        have rest : lookupLoop step (front ++ (name ++ ['/']) ++ more) fuel reached
            (UInt32.ofNat (front ++ (name ++ ['/'])).length)
            (UInt32.ofNat (front ++ (name ++ ['/'])).length) state =
              walk step (segments more) reached state :=
          ih state moreNul (regroup ▸ small) moreEnough nonNull
        rw [length_append, length_append, length_singleton,
          ← Nat.add_assoc] at rest
        rw [regroup]
        exact rest
      rw [segments_cons free]
      by_cases empty : name = []
      · rw [if_pos empty, if_pos empty, ok_bind, if_neg real, if_neg notNul]
        exact next node state real
      rw [if_neg empty, if_neg empty, walk]
      apply bind_congr
      intro reached
      by_cases null : reached.1 = 0
      · rw [if_pos null, if_pos null]
      · rw [if_neg null, if_neg null, if_neg notNul]
        exact next reached.1 reached.2 null

theorem lookupLoop_absolute {path : List Char} {node : Nat} (state : State) (noNul : nul ∉ path)
    (small : path.length < 2 ^ 32 - 1) (absolute : path.head? = some '/') (real : node ≠ 0) :
    lookupLoop step path (path.length + 1) node 1 1 state = walk step (segments path) node state := by
  cases path with
  | nil => cases absolute
  | cons character rest =>
    have slash : character = '/' := Option.some.inj absolute
    rw [slash] at noNul small ⊢
    have restNul : nul ∉ rest := fun member => noNul (mem_cons_of_mem _ member)
    have names : segments ('/' :: rest) = segments rest := segments_cons not_mem_nil rest
    have loop : lookupLoop step (['/'] ++ rest) (('/' :: rest).length + 1) node
        (UInt32.ofNat ['/'].length) (UInt32.ofNat ['/'].length) state =
          walk step (segments rest) node state :=
      lookupLoop_eq_walk step _ state restNul small (Nat.lt_succ_of_lt (Nat.lt_succ_self _)) real
    rw [names]
    exact loop

/-- The whole scanner. -/
theorem lookupScan_eq_walk {path : List Char} {rootNode : Nat} (state : State)
    (noNul : nul ∉ path) (small : path.length < 2 ^ 32 - 1) (real : rootNode ≠ 0) :
    lookupScan step path rootNode state =
      if path.head? = some '/' then walk step (segments path) rootNode state
      else .ok (0, state) := by
  have length : strLen ([] ++ path) (path.length + 1) ([] : List Char).length =
      .ok ([] ++ path).length :=
    strLen_from noNul (path.length + 1) (Nat.lt_succ_self _)
  rw [nil_append, length_nil] at length
  have first : readPath path 0 = .ok (pathAt path 0) := readPath_append [] path
  unfold lookupScan
  rw [length, ok_bind, first, ok_bind]
  by_cases absolute : path.head? = some '/'
  · have loop := lookupLoop_absolute step state noNul small absolute real
    cases path with
    | nil => cases absolute
    | cons character rest =>
      have slash : pathAt (character :: rest) 0 = '/' := Option.some.inj absolute
      have some : ¬ (character :: rest).length = 0 := Nat.succ_ne_zero _
      rw [if_neg some, if_pos slash, if_pos absolute, loop]
  · rw [if_neg absolute]
    cases path with
    | nil => rfl
    | cons character rest =>
      have notSlash : ¬ pathAt (character :: rest) 0 = '/' :=
        fun same => absolute (congrArg some same)
      have some : ¬ (character :: rest).length = 0 := Nat.succ_ne_zero _
      rw [if_neg some, if_neg notSlash]
      rfl

end Walk

/-! ### A partial function for `vfs_finddir` -/

/-- The step of the scanner when `vfs_finddir` is a function of the node and the name, 0 where
it is not defined.  The directory is given back when nothing refers to it. -/
def descendWith (finddir : Nat → List Char → Nat) (refCount : Nat → UInt32) (currentNode : Nat)
    (name : List Char) (freed : List Nat) : Except Fault (Nat × List Nat) :=
  if currentNode = 0 then .error .nullDereference
  else if refCount currentNode = 0 then .ok (finddir currentNode name, currentNode :: freed)
  else .ok (finddir currentNode name, freed)

def asNode (address : Nat) : Option Nat := if address = 0 then none else some address

def resolve (finddir : Nat → List Char → Nat) (names : List (List Char)) (node : Nat) :
    Option Nat :=
  names.foldlM (fun current name => asNode (finddir current name)) node

section Partial

variable (finddir : Nat → List Char → Nat) (refCount : Nat → UInt32)

theorem descendWith_ok {node : Nat} (name : List Char) (freed : List Nat) (real : node ≠ 0) :
    ∃ after, descendWith finddir refCount node name freed = .ok (finddir node name, after) := by
  unfold descendWith
  rw [if_neg real]
  by_cases unused : refCount node = 0
  · rw [if_pos unused]
    exact ⟨_, rfl⟩
  · rw [if_neg unused]
    exact ⟨_, rfl⟩

theorem walk_resolve (names : List (List Char)) {node : Nat} (freed : List Nat) (real : node ≠ 0) :
    ∃ after, walk (descendWith finddir refCount) names node freed =
      .ok ((resolve finddir names node).getD 0, after) := by
  induction names generalizing node freed with
  | nil => exact ⟨freed, rfl⟩
  | cons name names ih =>
    obtain ⟨middle, stepped⟩ := descendWith_ok finddir refCount name freed real
    rw [walk, stepped, ok_bind]
    unfold resolve
    rw [foldlM_cons]
    by_cases null : finddir node name = 0
    · rw [if_pos null]
      unfold asNode
      rw [if_pos null]
      exact ⟨middle, rfl⟩
    rw [if_neg null]
    have found : asNode (finddir node name) = some (finddir node name) := if_neg null
    rw [found]
    exact ih middle null

end Partial

/-- `vfs_lookup` folds `vfs_finddir` over the names of an absolute path.  The scanner returns, so
it reads nothing behind the NUL. -/
theorem vfs_lookup_folds_segments (finddir : Nat → List Char → Nat) (refCount : Nat → UInt32)
    (path : List Char) (rootNode : Nat) (freed : List Nat) (initialised : rootNode ≠ 0)
    (terminated : nul ∉ path) (short : path.length < 2 ^ 32 - 1) :
    ∃ after, lookupScan (descendWith finddir refCount) path rootNode freed =
      .ok (if path.head? = some '/' then (resolve finddir (segments path) rootNode).getD 0 else 0,
        after) := by
  rw [lookupScan_eq_walk _ freed terminated short initialised]
  by_cases absolute : path.head? = some '/'
  · rw [if_pos absolute, if_pos absolute]
    exact walk_resolve finddir refCount (segments path) freed initialised
  · rw [if_neg absolute, if_neg absolute]
    exact ⟨freed, rfl⟩

/-- A path with repeated and trailing slashes and names of one character. -/
theorem vfs_lookup_folds_segments_slashes :
    ∃ after, lookupScan (descendWith (fun node name => 10 * node + name.length) (fun _ => 0))
      "//a/bcd//e/".toList 1 [] = .ok (1131, after) :=
  vfs_lookup_folds_segments (fun node name => 10 * node + name.length) (fun _ => 0)
    "//a/bcd//e/".toList 1 [] (by decide) (by decide) (by decide)

end Fesos.Vfs
