/-
memset, volatile_memset and memcpy of common/stdstr.c.

Addresses have 64 bits and wrap; a word is stored with its lowest byte first.  The
three functions go over a range in the same way: byte by byte up to an aligned
address, then by whole words, then byte by byte to the end.  The pointer that memcpy
reads through is initialised with itself, so its first value is a parameter.
-/

import Fesos.Machine

set_option autoImplicit false

namespace Fesos

abbrev Bytes : Type := UInt64 → UInt8

/-- How far an address lies behind a start. -/
def distance (start address : UInt64) : Nat := (address - start).toNat

def store64 (memory : Bytes) (pointer : UInt64) (value : Nat) : Bytes := fun address =>
  if distance pointer address < 8 then byteAt value (distance pointer address) else memory address

def load64 (memory : Bytes) (pointer : UInt64) : Nat :=
  littleEndian (fun lane => memory (pointer + UInt64.ofNat lane)) 0 8

theorem distance_eq (start address : UInt64) :
    distance start address = (2 ^ 64 - start.toNat + address.toNat) % 2 ^ 64 :=
  UInt64.toNat_sub address start

theorem toNat_behind (start : UInt64) (position : Nat) :
    (start + UInt64.ofNat position).toNat = (start.toNat + position % 2 ^ 64) % 2 ^ 64 := by
  rw [UInt64.toNat_add, UInt64.toNat_ofNat']

theorem distance_add {start : UInt64} {position : Nat} (small : position < 2 ^ 64) :
    distance start (start + UInt64.ofNat position) = position := by
  have startSmall := start.toNat_lt
  rw [distance_eq, toNat_behind]
  omega

/-- Distances from a later start. -/
theorem distance_later {start address : UInt64} {position : Nat}
    (behind : position ≤ distance start address) :
    distance (start + UInt64.ofNat position) address = distance start address - position := by
  have startSmall := start.toNat_lt
  have small := address.toNat_lt
  rw [distance_eq] at behind ⊢
  rw [distance_eq, toNat_behind]
  omega

theorem near_iff {start address : UInt64} {position width : Nat}
    (fits : position + width ≤ 2 ^ 64) :
    distance (start + UInt64.ofNat position) address < width ↔
      position ≤ distance start address ∧ distance start address < position + width := by
  have startSmall := start.toNat_lt
  have small := address.toNat_lt
  rw [distance_eq, distance_eq, toNat_behind]
  omega

/-- A store of one byte, in the form of the wider ones. -/
theorem update_eq_near (memory : Bytes) (pointer : UInt64) (value : UInt8) :
    Function.update memory pointer value = fun address =>
      if distance pointer address < 1 then value else memory address := by
  funext address
  have here : distance pointer address < 1 ↔ address = pointer := by
    rw [Nat.lt_one_iff, distance_eq, ← UInt64.toNat_inj]
    have pointerSmall := pointer.toNat_lt
    have small := address.toNat_lt
    omega
  simp only [Function.update_apply, here]

/-! ### Going over a range -/

section Bulk

variable {State : Type} (pointer : State → UInt64) (byte wide : State → State)

/-- Up to an aligned address; the size that is left comes first. -/
def bulkHead : Nat → State → Nat × State
  | 0, state => (0, state)
  | size + 1, state =>
    if pointer state &&& 7 = 0 then (size + 1, state) else bulkHead size (byte state)

def bulkMiddle : Nat → State → Nat × State
  | size + 8, state => bulkMiddle size (wide state)
  | size, state => (size, state)

def bulkTail : Nat → State → State
  | 0, state => state
  | size + 1, state => bulkTail size (byte state)

def bulk (size : Nat) (state : State) : State :=
  let middle := bulkHead pointer byte size state
  let tail := bulkMiddle wide middle.1 middle.2
  bulkTail byte tail.1 tail.2

end Bulk

/-- The position is in an aligned word of the range. -/
def InWord (start : UInt64) (size position : Nat) : Prop :=
  (start.toNat + position) % 8 ≤ position ∧ position - (start.toNat + position) % 8 + 8 ≤ size

instance (start : UInt64) (size position : Nat) : Decidable (InWord start size position) :=
  inferInstanceAs (Decidable (_ ∧ _))

theorem aligned_iff (address : UInt64) : address &&& 7 = 0 ↔ address.toNat % 8 = 0 := by
  rw [← UInt64.toNat_inj, UInt64.toNat_and]
  exact Eq.congr_left (Nat.and_two_pow_sub_one_eq_mod address.toNat 3)

theorem bulkTail_holds {State : Type} {byte : State → State} {size : Nat}
    {holds : Nat → State → Prop} (rest : Nat) {position : Nat} {state : State}
    (step : ∀ later state, position ≤ later → later < size → holds later state →
      holds (later + 1) (byte state))
    (total : position + rest = size) (here : holds position state) :
    holds size (bulkTail byte rest state) := by
  induction rest generalizing position state with
  | zero =>
    rw [← total]
    exact here
  | succ rest ih =>
    apply ih (fun later state behind => step later state (Nat.le_of_succ_le behind))
    · omega
    · exact step position state le_rfl (by omega) here

section Rule

variable {State : Type} {pointer : State → UInt64} {byte wide : State → State} {start : UInt64}
  {size : Nat} {holds : Nat → State → Prop}
  (points : ∀ position state, holds position state → pointer state = start + UInt64.ofNat position)
  (byteStep : ∀ position state, position < size → ¬ InWord start size position →
    holds position state → holds (position + 1) (byte state))
  (wideStep : ∀ position state, position + 8 ≤ size → (start.toNat + position) % 8 = 0 →
    holds position state → holds (position + 8) (wide state))

include byteStep

include points

theorem bulkHead_holds (rest : Nat) {position : Nat} {state : State}
    (total : position + rest = size) (near : position = 0 ∨ start.toNat % 8 ≠ 0 ∧
      start.toNat % 8 + position ≤ 8) (here : holds position state) :
    ∃ reached, reached + (bulkHead pointer byte rest state).1 = size ∧
      holds reached (bulkHead pointer byte rest state).2 ∧
      ((bulkHead pointer byte rest state).1 = 0 ∨ (start.toNat + reached) % 8 = 0) := by
  induction rest generalizing position state with
  | zero => exact ⟨position, total, here, Or.inl rfl⟩
  | succ rest ih =>
    have isAligned := aligned_iff (pointer state)
    rw [points position state here, UInt64.toNat_add, UInt64.toNat_ofNat'] at isAligned
    rw [bulkHead, points position state here]
    split
    · rename_i aligned
      have zero := isAligned.mp aligned
      exact ⟨position, total, here, Or.inr (by omega)⟩
    · rename_i unaligned
      have nonzero := mt isAligned.mpr unaligned
      have outside : ¬ InWord start size position := by
        unfold InWord
        omega
      exact ih (by omega) (by omega) (byteStep position state (by omega) outside here)

include wideStep

omit points byteStep in
theorem bulkMiddle_holds (rest : Nat) {position : Nat} {state : State}
    (total : position + rest = size) (aligned : rest = 0 ∨ (start.toNat + position) % 8 = 0)
    (here : holds position state) :
    ∃ reached, reached + (bulkMiddle wide rest state).1 = size ∧
      holds reached (bulkMiddle wide rest state).2 ∧ (bulkMiddle wide rest state).1 < 8 ∧
      ((bulkMiddle wide rest state).1 = 0 ∨ (start.toNat + reached) % 8 = 0) := by
  induction rest, state using bulkMiddle.induct wide generalizing position with
  | case1 rest state ih =>
    rw [bulkMiddle]
    exact ih (by omega : position + 8 + rest = size) (Or.inr (by omega))
      (wideStep position state (by omega) (by omega) here)
  | case2 rest state short =>
    have small : rest < 8 := by
      by_contra large
      exact short (rest - 8) (by omega)
    rw [bulkMiddle]
    · exact ⟨position, total, here, small, aligned⟩
    · exact short

/-- What every step keeps, from the number of bytes behind it to the number before. -/
theorem bulk_holds {state : State} (begun : holds 0 state) :
    holds size (bulk pointer byte wide size state) := by
  obtain ⟨head, headTotal, atHead, headAligned⟩ :=
    bulkHead_holds points byteStep size (Nat.zero_add size) (Or.inl rfl) begun
  obtain ⟨middle, middleTotal, atMiddle, short, middleAligned⟩ :=
    bulkMiddle_holds wideStep _ headTotal headAligned atHead
  refine bulkTail_holds _ ?_ middleTotal atMiddle
  intro later state behind inside held
  apply byteStep later state inside _ held
  unfold InWord
  omega

end Rule

/-! ### Setting memory -/

/-- The pointer, the memory, and the addresses of the 64-bit stores so far. -/
structure Filling where
  pointer : UInt64
  memory : Bytes
  wideStores : List UInt64

def fillByte (pattern : UInt8) (filling : Filling) : Filling :=
  { filling with
    pointer := filling.pointer + 1
    memory := Function.update filling.memory filling.pointer pattern }

def pattern64 (pattern : UInt8) : UInt64 :=
  let pattern16 := pattern.toUInt64 ||| pattern.toUInt64 <<< 8
  let pattern32 := pattern16 ||| pattern16 <<< 16
  pattern32 ||| pattern32 <<< 32

def fillWord (pattern : UInt8) (filling : Filling) : Filling :=
  { pointer := filling.pointer + 8
    memory := store64 filling.memory filling.pointer (pattern64 pattern).toNat
    wideStores := filling.pointer :: filling.wideStores }

def memset (start : UInt64) (pattern : UInt8) (size : UInt64) (memory : Bytes) :
    UInt64 × Filling :=
  (start, bulk Filling.pointer (fillByte pattern) (fillWord pattern) size.toNat ⟨start, memory, []⟩)

def volatileMemset (start : UInt64) (pattern : UInt8) (size : UInt64) (memory : Bytes) :
    UInt64 × Filling :=
  memset start pattern size memory

theorem doubled_toNat {value width : UInt64} (fits : width.toNat ≤ 32)
    (small : value.toNat < 2 ^ width.toNat) :
    (value ||| value <<< width).toNat = value.toNat * (2 ^ width.toNat + 1) := by
  have bounded : value.toNat * 2 ^ width.toNat < 2 ^ 64 := by
    calc value.toNat * 2 ^ width.toNat
      _ < 2 ^ width.toNat * 2 ^ width.toNat := Nat.mul_lt_mul_of_pos_right small (by positivity)
      _ = 2 ^ (width.toNat + width.toNat) := (Nat.pow_add 2 _ _).symm
      _ ≤ 2 ^ 64 := Nat.pow_le_pow_right (by decide) (by omega)
  rw [UInt64.toNat_or, UInt64.toNat_shiftLeft, Nat.mod_eq_of_lt (by omega : width.toNat < 64),
    Nat.shiftLeft_eq, Nat.mod_eq_of_lt bounded, ← Nat.shiftLeft_eq, Nat.or_comm,
    ← Nat.shiftLeft_add_eq_or_of_lt small, Nat.shiftLeft_eq, Nat.mul_succ]

/-- Three doublings of a byte make eight copies of it. -/
theorem pattern64_toNat (pattern : UInt8) :
    (pattern64 pattern).toNat = littleEndian (fun _ => pattern) 0 8 := by
  have small := pattern.toNat_lt
  have first : (pattern.toUInt64 ||| pattern.toUInt64 <<< 8).toNat = pattern.toNat * 257 :=
    doubled_toNat (by decide) small
  have second := doubled_toNat (by decide : (16 : UInt64).toNat ≤ 32) (by
    rw [first]
    change _ < 65536
    omega : (pattern.toUInt64 ||| pattern.toUInt64 <<< 8).toNat < 2 ^ (16 : UInt64).toNat)
  rw [first] at second
  have third := doubled_toNat (by decide : (32 : UInt64).toNat ≤ 32) (by
    rw [second]
    change _ * 65537 < 4294967296
    omega)
  rw [second] at third
  refine third.trans ?_
  change pattern.toNat * 257 * 65537 * 4294967297 = _
  simp only [littleEndian]
  omega

theorem byteAt_pattern64 (pattern : UInt8) {lane : Nat} (inside : lane < 8) :
    byteAt (pattern64 pattern).toNat lane = pattern := by
  rw [pattern64_toNat]
  exact byteAt_littleEndian (fun _ => pattern) 0 inside

/-- The first bytes of a range are set, the others are as before. -/
def filledBytes (start : UInt64) (pattern : UInt8) (before : Bytes) (count : Nat) : Bytes :=
  fun address => if distance start address < count then pattern else before address

structure FilledTo (start : UInt64) (pattern : UInt8) (before : Bytes) (count : Nat)
    (filling : Filling) : Prop where
  pointer : filling.pointer = start + UInt64.ofNat count
  memory : filling.memory = filledBytes start pattern before count
  aligned : ∀ address ∈ filling.wideStores, address.toNat % 8 = 0

section Fill

variable {start : UInt64} {pattern : UInt8} {before : Bytes} {count : Nat} {filling : Filling}

theorem behind_add (start : UInt64) (count width : Nat) :
    start + UInt64.ofNat count + UInt64.ofNat width = start + UInt64.ofNat (count + width) := by
  rw [UInt64.add_assoc, UInt64.ofNat_add]

theorem filledBytes_add {width : Nat} (fits : count + width ≤ 2 ^ 64) :
    (fun address => if distance (start + UInt64.ofNat count) address < width then pattern
      else filledBytes start pattern before count address) =
        filledBytes start pattern before (count + width) := by
  funext address
  unfold filledBytes
  rw [if_congr (near_iff fits) rfl rfl]
  grind

theorem FilledTo.byte (fits : count + 1 ≤ 2 ^ 64)
    (filledTo : FilledTo start pattern before count filling) :
    FilledTo start pattern before (count + 1) (fillByte pattern filling) where
  pointer := by
    rw [← behind_add, ← filledTo.pointer]
    rfl
  memory := by
    unfold fillByte
    rw [filledTo.pointer, filledTo.memory, update_eq_near, filledBytes_add fits]
  aligned := filledTo.aligned

theorem FilledTo.word (fits : count + 8 ≤ 2 ^ 64) (atWord : (start.toNat + count) % 8 = 0)
    (filledTo : FilledTo start pattern before count filling) :
    FilledTo start pattern before (count + 8) (fillWord pattern filling) where
  pointer := by
    rw [← behind_add, ← filledTo.pointer]
    rfl
  memory := by
    change store64 filling.memory filling.pointer (pattern64 pattern).toNat = _
    rw [← filledBytes_add fits, filledTo.pointer, filledTo.memory]
    funext address
    exact ite_congr rfl (fun near => byteAt_pattern64 pattern near) (fun _ => rfl)
  aligned := by
    intro address member
    rcases List.mem_cons.mp member with isPointer | earlier
    · rw [isPointer, filledTo.pointer, toNat_behind]
      omega
    · exact filledTo.aligned address earlier

theorem filledTo_start : FilledTo start pattern before 0 ⟨start, before, []⟩ := by
  refine ⟨(UInt64.add_zero start).symm, ?_, nofun⟩
  funext address
  exact (if_neg (Nat.not_lt_zero _)).symm

theorem memset_filledTo (size : UInt64) :
    FilledTo start pattern before size.toNat (memset start pattern size before).2 := by
  have small := size.toNat_lt
  apply bulk_holds (fun _ _ held => held.pointer) _ _ filledTo_start
  · exact fun position filling inside _ held => held.byte (by omega)
  · exact fun position filling inside atWord held => held.word (by omega) atWord

theorem fillBytes_filledTo (size : UInt64) :
    FilledTo start pattern before size.toNat
      (bulkTail (fillByte pattern) size.toNat ⟨start, before, []⟩) := by
  have small := size.toNat_lt
  apply bulkTail_holds _ _ (Nat.zero_add size.toNat) filledTo_start
  exact fun position filling _ inside held => held.byte (by omega)

end Fill

/-- What setting memory has to do: as the plain loop over the bytes. -/
structure Sets (start : UInt64) (pattern : UInt8) (size : UInt64) (before : Bytes)
    (result : UInt64 × Filling) : Prop where
  returned : result.1 = start
  plain : result.2.memory =
    (bulkTail (fillByte pattern) size.toNat ⟨start, before, []⟩).memory
  bytes : ∀ address, result.2.memory address =
    if distance start address < size.toNat then pattern else before address
  aligned : ∀ address ∈ result.2.wideStores, address.toNat % 8 = 0

/-- Both functions do what the plain loop does, with aligned 64-bit stores. -/
theorem memset_sets (start : UInt64) (pattern : UInt8) (size : UInt64) (before : Bytes) :
    Sets start pattern size before (memset start pattern size before) ∧
      Sets start pattern size before (volatileMemset start pattern size before) := by
  have wide := @memset_filledTo start pattern before size
  have sets : Sets start pattern size before (memset start pattern size before) :=
    ⟨rfl, wide.memory.trans (fillBytes_filledTo size).memory.symm, congrFun wide.memory,
      wide.aligned⟩
  exact ⟨sets, sets⟩

/-! ### Copying memory -/

structure Copying where
  dest : UInt64
  src : UInt64
  memory : Bytes

def copyByte (copying : Copying) : Copying :=
  { dest := copying.dest + 1
    src := copying.src + 1
    memory := Function.update copying.memory copying.dest (copying.memory copying.src) }

def copyWord (copying : Copying) : Copying :=
  { dest := copying.dest + 8
    src := copying.src + 8
    memory := store64 copying.memory copying.dest (load64 copying.memory copying.src) }

/-- `stale` is what the uninitialised `src8` holds; the argument `src` is not read. -/
def memcpy (stale dest _src size : UInt64) (memory : Bytes) : UInt64 × Bytes :=
  (dest, (bulk Copying.dest copyByte copyWord size.toNat ⟨dest, stale, memory⟩).memory)

/-- The first bytes of the destination are those of the source, all others as before. -/
def copied (dest src : UInt64) (before : Bytes) (count : Nat) : Bytes := fun address =>
  if distance dest address < count then before (src + UInt64.ofNat (distance dest address))
  else before address

/-- The position at which the store of a byte starts. -/
def storeStart (dest : UInt64) (size position : Nat) : Nat :=
  if InWord dest size position then position - (dest.toNat + position) % 8 else position

/-- What is found behind `stale` when a byte is copied, the bytes before it being
right, is the byte of the source. -/
def ReadsSource (stale dest src : UInt64) (size : Nat) (before : Bytes) (position : Nat) : Prop :=
  copied dest src before (storeStart dest size position) (stale + UInt64.ofNat position) =
    before (src + UInt64.ofNat position)

structure CopiedTo (stale dest src : UInt64) (size : Nat) (before : Bytes) (count : Nat)
    (copying : Copying) : Prop where
  right : copying.memory = copied dest src before count ↔
    ∀ position < count, ReadsSource stale dest src size before position
  others : ∀ address, count ≤ distance dest address → copying.memory address = before address
  destination : copying.dest = dest + UInt64.ofNat count
  source : copying.src = stale + UInt64.ofNat count

/-- Bytes are moved from the source pointer to the destination pointer. -/
structure Moves (width : Nat) (copying next : Copying) : Prop where
  dest : next.dest = copying.dest + UInt64.ofNat width
  src : next.src = copying.src + UInt64.ofNat width
  memory : ∀ address, next.memory address =
    if distance copying.dest address < width then
      copying.memory (copying.src + UInt64.ofNat (distance copying.dest address))
    else copying.memory address

theorem copyByte_moves (copying : Copying) : Moves 1 copying (copyByte copying) := by
  refine ⟨rfl, rfl, fun address => ?_⟩
  unfold copyByte
  rw [update_eq_near]
  refine ite_congr rfl (fun near => ?_) (fun _ => rfl)
  rw [Nat.lt_one_iff.mp near]
  exact congrArg copying.memory (UInt64.add_zero copying.src).symm

theorem copyWord_moves (copying : Copying) : Moves 8 copying (copyWord copying) := by
  refine ⟨rfl, rfl, fun address => ite_congr rfl (fun near => ?_) (fun _ => rfl)⟩
  unfold load64
  rw [byteAt_littleEndian _ 0 near, Nat.zero_add]

section Copy

variable {stale dest src : UInt64} {size count width : Nat} {before : Bytes}
  {copying next : Copying}

theorem CopiedTo.moved (held : CopiedTo stale dest src size before count copying)
    (moves : Moves width copying next) (fits : count + width ≤ 2 ^ 64) (address : UInt64) :
    next.memory address =
      if count ≤ distance dest address ∧ distance dest address < count + width then
        copying.memory (stale + UInt64.ofNat (distance dest address))
      else copying.memory address := by
  rw [moves.memory address, held.destination, held.source]
  refine ite_congr (propext (near_iff fits)) (fun near => ?_) (fun _ => rfl)
  rw [distance_later near.1, behind_add, Nat.add_sub_cancel' near.1]

/-- A step is right if the steps before it are and it finds the bytes of the source. -/
theorem CopiedTo.step (held : CopiedTo stale dest src size before count copying)
    (moves : Moves width copying next) (fits : count + width ≤ 2 ^ 64)
    (starts : ∀ position, count ≤ position → position < count + width →
      storeStart dest size position = count) :
    CopiedTo stale dest src size before (count + width) next where
  right := by
    have moved := held.moved moves fits
    constructor
    · intro isCopied
      have earlier : copying.memory = copied dest src before count := by
        funext address
        by_cases done : distance dest address < count
        · have kept := moved address
          rw [if_neg (by omega), isCopied] at kept
          rw [← kept]
          unfold copied
          rw [if_pos done, if_pos (by omega)]
        · rw [held.others address (Nat.not_lt.mp done)]
          exact (if_neg done).symm
      intro position inside
      by_cases done : position < count
      · exact held.right.mp earlier position done
      · have there := moved (dest + UInt64.ofNat position)
        rw [distance_add (by omega), if_pos (by omega), isCopied, earlier] at there
        unfold ReadsSource
        rw [starts position (by omega) inside, ← there]
        unfold copied
        rw [distance_add (by omega), if_pos inside]
    · intro reads
      have earlier := held.right.mpr (fun position inside => reads position (by omega))
      funext address
      rw [moved address]
      by_cases here : count ≤ distance dest address ∧ distance dest address < count + width
      · have read := reads (distance dest address) here.2
        unfold ReadsSource at read
        rw [starts _ here.1 here.2] at read
        rw [if_pos here, earlier, read]
        exact (if_pos here.2).symm
      · rw [if_neg here, earlier]
        unfold copied
        exact if_congr (by omega) rfl rfl
  others := by
    intro address behind
    rw [held.moved moves fits address, if_neg (by omega)]
    exact held.others address (by omega)
  destination := by
    rw [moves.dest, held.destination, behind_add]
  source := by
    rw [moves.src, held.source, behind_add]

end Copy

/-- What copying memory has to do. -/
structure Copies (dest src size : UInt64) (before : Bytes) (result : UInt64 × Bytes) : Prop where
  returned : result.1 = dest
  bytes : result.2 = copied dest src before size.toNat

/-- A copy is right exactly if the bytes behind the uninitialised pointer are those of
the source. -/
theorem memcpy_copies_iff (stale dest src size : UInt64) (before : Bytes) :
    Copies dest src size before (memcpy stale dest src size before) ↔
      ∀ position < size.toNat, ReadsSource stale dest src size.toNat before position := by
  have small := size.toNat_lt
  have copiedTo : CopiedTo stale dest src size.toNat before size.toNat
      (bulk Copying.dest copyByte copyWord size.toNat ⟨dest, stale, before⟩) := by
    apply bulk_holds (fun _ _ held => held.destination)
    · intro position copying inside outside held
      refine held.step (copyByte_moves copying) (by omega) ?_
      intro later behind ahead
      rw [Nat.le_antisymm (Nat.le_of_lt_succ ahead) behind]
      exact if_neg outside
    · intro position copying inside atWord held
      refine held.step (copyWord_moves copying) (by omega) ?_
      intro later behind ahead
      have within : InWord dest size.toNat later := by
        unfold InWord
        omega
      unfold storeStart
      rw [if_pos within]
      omega
    · refine ⟨⟨fun _ => nofun, fun _ => ?_⟩, fun _ _ => rfl, (UInt64.add_zero dest).symm,
        (UInt64.add_zero stale).symm⟩
      funext address
      exact (if_neg (Nat.not_lt_zero _)).symm
  rw [← copiedTo.right]
  exact ⟨Copies.bytes, fun bytes => ⟨rfl, bytes⟩⟩

/-- One byte, when the pointer happens to be NULL. -/
theorem memcpy_copies_garbage :
    let before : Bytes := fun address => if address = 0x1000 then 1 else 0
    (memcpy 0 0x2000 0x1000 1 before).2 0x2000 = 0 ∧
      ¬ Copies 0x2000 0x1000 1 before (memcpy 0 0x2000 0x1000 1 before) := by
  have found : (memcpy 0 0x2000 0x1000 1
      (fun address => if address = 0x1000 then 1 else 0)).2 0x2000 = 0 := by decide +kernel
  refine ⟨found, fun copies => ?_⟩
  rw [copies.bytes] at found
  exact absurd found (by decide +kernel)

end Fesos
