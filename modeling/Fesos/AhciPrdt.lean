/-
What the PRDT of a transfer says.

The loop takes the buffer apart at the page ends and joins pieces that follow one
another in physical memory.  So the entries are the maximal contiguous runs of the
buffer's physical addresses, as long as the entries fit the table and the runs fit an
entry.
-/

import Fesos.Ahci
import Fesos.Library.Spans

set_option autoImplicit false

namespace Fesos

open Library List

/-! ### The buffer in physical memory -/

theorem word_word_add (base step offset : Nat) :
    word (word (base + step) + offset) = word (base + (step + offset)) := by
  unfold word
  omega

def pageTranslation (frame : Nat → Nat) (vAddr : Nat) : Nat :=
  frame (vAddr / 4096) * 4096 + vAddr % 4096

def bufferAddresses (frame : Nat → Nat) (buffer bytes : Nat) : List Nat :=
  (List.range bytes).map (fun offset => pageTranslation frame (word (buffer + offset)))

def bufferPieces (frame : Nat → Nat) (vAddr remaining : Nat) : List Span :=
  if remaining = 0 then []
  else
    ⟨pageTranslation frame vAddr, bytesThisStep vAddr remaining⟩ ::
      bufferPieces frame (word (vAddr + bytesThisStep vAddr remaining))
        (remaining - bytesThisStep vAddr remaining)
termination_by remaining
decreasing_by
  have positive := bytesThisStep_pos vAddr ‹¬ remaining = 0›
  omega

section Pieces

variable {frame : Nat → Nat} {vAddr remaining : Nat}

theorem bufferPieces_nil (frame : Nat → Nat) (vAddr : Nat) : bufferPieces frame vAddr 0 = [] := by
  rw [bufferPieces, if_pos rfl]

theorem bufferPieces_cons (frame : Nat → Nat) (vAddr : Nat) (some : remaining ≠ 0) :
    bufferPieces frame vAddr remaining =
      ⟨pageTranslation frame vAddr, bytesThisStep vAddr remaining⟩ ::
        bufferPieces frame (word (vAddr + bytesThisStep vAddr remaining))
          (remaining - bytesThisStep vAddr remaining) := by
  rw [bufferPieces, if_neg some]

theorem pages_induction {motive : Nat → Nat → Prop} (none : ∀ vAddr, motive vAddr 0)
    (step : ∀ vAddr remaining, remaining ≠ 0 →
      motive (word (vAddr + bytesThisStep vAddr remaining))
        (remaining - bytesThisStep vAddr remaining) → motive vAddr remaining)
    (vAddr remaining : Nat) : motive vAddr remaining := by
  induction remaining using Nat.strong_induction_on generalizing vAddr with
  | _ remaining ih =>
    by_cases empty : remaining = 0
    · rw [empty]
      exact none vAddr
    apply step vAddr remaining empty
    apply ih
    have positive := bytesThisStep_pos vAddr empty
    omega

theorem bufferPieces_filled (frame : Nat → Nat) (vAddr remaining : Nat) :
    ∀ piece ∈ bufferPieces frame vAddr remaining, 0 < piece.length := by
  induction vAddr, remaining using pages_induction with
  | none vAddr =>
    rw [bufferPieces_nil]
    nofun
  | step vAddr remaining some ih =>
    rw [bufferPieces_cons frame vAddr some]
    exact forall_mem_cons.mpr ⟨bytesThisStep_pos vAddr some, ih⟩

theorem bufferPieces_sum (frame : Nat → Nat) (vAddr remaining : Nat) :
    ((bufferPieces frame vAddr remaining).map Span.length).sum = remaining := by
  induction vAddr, remaining using pages_induction with
  | none vAddr =>
    rw [bufferPieces_nil]
    rfl
  | step vAddr remaining some ih =>
    rw [bufferPieces_cons frame vAddr some, map_cons, sum_cons, ih]
    exact Nat.add_sub_cancel' (bytesThisStep_le vAddr remaining)

theorem bufferPieces_end (fits : ∀ page, frame page * 4096 + 4096 < 2 ^ 64)
    (vAddr remaining : Nat) :
    ∀ piece ∈ bufferPieces frame vAddr remaining, piece.start + piece.length < 2 ^ 64 := by
  induction vAddr, remaining using pages_induction with
  | none vAddr =>
    rw [bufferPieces_nil]
    nofun
  | step vAddr remaining some ih =>
    rw [bufferPieces_cons frame vAddr some]
    intro piece member
    rcases mem_cons.mp member with isFirst | later
    · have step : bytesThisStep vAddr remaining ≤ 4096 - vAddr % 4096 := Nat.min_le_left _ _
      rw [isFirst]
      apply Nat.lt_of_le_of_lt _ (fits (vAddr / 4096))
      change frame (vAddr / 4096) * 4096 + vAddr % 4096 + bytesThisStep vAddr remaining ≤ _
      omega
    · exact ih piece later

/-- One piece for every page that the buffer touches. -/
theorem bufferPieces_length (frame : Nat → Nat) (vAddr remaining : Nat) :
    remaining ≠ 0 →
      (bufferPieces frame vAddr remaining).length = (vAddr % 4096 + remaining + 4095) / 4096 := by
  induction vAddr, remaining using pages_induction with
  | none vAddr => exact fun impossible => absurd rfl impossible
  | step vAddr remaining some ih =>
    intro _
    rw [bufferPieces_cons frame vAddr some, length_cons]
    by_cases last : remaining ≤ 4096 - vAddr % 4096
    · have step : bytesThisStep vAddr remaining = remaining := by
        unfold bytesThisStep
        omega
      rw [step, Nat.sub_self, bufferPieces_nil, length_nil]
      omega
    · have step : bytesThisStep vAddr remaining = 4096 - vAddr % 4096 := by
        unfold bytesThisStep
        omega
      have onPage : word (vAddr + (4096 - vAddr % 4096)) % 4096 = 0 := by
        unfold word
        omega
      rw [step] at ih ⊢
      rw [ih (by omega), onPage]
      omega

theorem bufferAddresses_step (frame : Nat → Nat) (bounded : vAddr < 2 ^ 64) :
    (List.range (bytesThisStep vAddr remaining)).map
        (fun offset => pageTranslation frame (word (vAddr + offset))) =
      (Span.mk (pageTranslation frame vAddr) (bytesThisStep vAddr remaining)).items := by
  unfold Span.items
  rw [List.range'_eq_map_range]
  apply map_congr_left
  intro offset inside
  have small := mem_range.mp inside
  unfold bytesThisStep at small
  have noWrap : word (vAddr + offset) = vAddr + offset := by
    apply word_of_lt
    omega
  have samePage : (vAddr + offset) / 4096 = vAddr / 4096 := by omega
  change pageTranslation frame (word (vAddr + offset)) = pageTranslation frame vAddr + offset
  rw [noWrap]
  unfold pageTranslation
  rw [samePage]
  omega

theorem bufferPieces_items (frame : Nat → Nat) (vAddr remaining : Nat) :
    vAddr < 2 ^ 64 →
      spanItems (bufferPieces frame vAddr remaining) = bufferAddresses frame vAddr remaining := by
  induction vAddr, remaining using pages_induction with
  | none vAddr =>
    intro _
    rw [bufferPieces_nil]
    rfl
  | step vAddr remaining some ih =>
    intro bounded
    have tail : bufferAddresses frame (word (vAddr + bytesThisStep vAddr remaining))
        (remaining - bytesThisStep vAddr remaining) =
          ((List.range (remaining - bytesThisStep vAddr remaining)).map
            (fun offset => bytesThisStep vAddr remaining + offset)).map
              (fun offset => pageTranslation frame (word (vAddr + offset))) := by
      unfold bufferAddresses
      rw [map_map]
      apply map_congr_left
      intro offset _
      rw [Function.comp_apply, word_word_add]
    have rest := ih (Nat.mod_lt _ (by decide))
    unfold spanItems at rest ⊢
    rw [bufferPieces_cons frame vAddr some, flatMap_cons, rest, tail,
      ← bufferAddresses_step frame bounded, ← map_append, ← range_add,
      Nat.add_sub_cancel' (bytesThisStep_le vAddr remaining)]
    rfl

end Pieces

/-! ### The loop -/

section Loop

variable {Memory : Type} {lookup : Nat → Memory → Nat × Memory} {frame : Nat → Nat}
  {memory : Memory}

/-- `lookup` answers the buffer's addresses by the translation, and changes nothing. -/
def Translates (lookup : Nat → Memory → Nat × Memory) (frame : Nat → Nat) (buffer bytes : Nat)
    (memory : Memory) : Prop :=
  ∀ offset < bytes, lookup (word (buffer + offset)) memory =
    (pageTranslation frame (word (buffer + offset)), memory)

/-- The loop adds the pieces one after the other. -/
theorem prdtLoop_eq (vAddr remaining : Nat) :
    vAddr < 2 ^ 64 → Translates lookup frame vAddr remaining memory → ∀ build : PrdtBuild,
      prdtLoop lookup remaining vAddr build memory =
        ((bufferPieces frame vAddr remaining).foldl
          (fun build piece => build.add piece.start piece.length) build, memory) := by
  induction vAddr, remaining using pages_induction with
  | none vAddr =>
    intro _ _ build
    rw [bufferPieces_nil, prdtLoop, if_pos rfl]
    rfl
  | step vAddr remaining some ih =>
    intro bounded translates build
    have positive := bytesThisStep_pos vAddr some
    have here := translates 0 (Nat.pos_of_ne_zero some)
    rw [Nat.add_zero, word_of_lt bounded] at here
    have later : Translates lookup frame (word (vAddr + bytesThisStep vAddr remaining))
        (remaining - bytesThisStep vAddr remaining) memory := by
      intro offset inside
      rw [word_word_add]
      exact translates _ (by omega)
    rw [bufferPieces_cons frame vAddr some, foldl_cons, prdtLoop, if_neg some]
    dsimp only
    rw [here]
    exact ih (Nat.mod_lt _ (by decide)) later _

end Loop

/-! ### The chunks -/

def entryOf (span : Span) : HbaPrdtEntry := HbaPrdtEntry.ofChunk span.start span.length

namespace PrdtBuild

structure Filed (build : PrdtBuild) : Prop where
  index : build.prdtIndex = build.written.length % 2 ^ 16
  stored : build.written.length ≤ 2 ^ 16 → ∀ position entry,
    build.written[position]? = some entry → build.prdtEntry position = entry

/-- The entries of the closed chunks are written, and a chunk is open. -/
structure Holds (build : PrdtBuild) (closed : List Span) (chunk : Span) : Prop where
  filed : build.Filed
  written : build.written = closed.map entryOf
  lengths : build.chunkLengths = closed.map Span.length
  start : build.chunkPhysStart = chunk.start
  bytes : build.chunkBytes = chunk.length
  positive : 0 < chunk.length
  last : build.lastPhysEnd = chunk.start + chunk.length

variable {build : PrdtBuild} {closed : List Span} {chunk : Span}

theorem Filed.flush (filed : build.Filed) : build.flush.Filed where
  index := by
    unfold PrdtBuild.flush
    dsimp only
    rw [filed.index, length_append, length_singleton, Nat.mod_add_mod]
  stored := by
    intro few position entry isEntry
    unfold PrdtBuild.flush at few isEntry ⊢
    dsimp only at few isEntry ⊢
    rw [length_append, length_singleton] at few
    have index : build.prdtIndex = build.written.length := by
      rw [filed.index]
      exact Nat.mod_eq_of_lt few
    rw [index]
    by_cases new : position = build.written.length
    · rw [new, List.getElem?_append_right (Nat.le_refl _), Nat.sub_self] at isEntry
      rw [new, Function.update_self]
      exact Option.some.inj isEntry
    have old : position < build.written.length := by
      have inside := (List.getElem?_eq_some_iff.mp isEntry).1
      rw [length_append, length_singleton] at inside
      omega
    rw [List.getElem?_append_left old] at isEntry
    rw [Function.update_of_ne new]
    exact filed.stored (by omega) position entry isEntry

theorem Holds.first {piece : Span} (filed : build.Filed) (nothing : build.written = [])
    (noLengths : build.chunkLengths = []) (empty : build.chunkBytes = 0) (positive : 0 < piece.length)
    (fits : piece.start + piece.length < 2 ^ 64) :
    (build.add piece.start piece.length).Holds [] piece := by
  have kept : build.flushIfAny = build := by
    unfold flushIfAny
    exact if_neg (by omega)
  unfold add
  rw [if_pos (Or.inl empty), kept]
  dsimp only
  refine ⟨⟨filed.index, filed.stored⟩, nothing, noLengths, rfl, ?_, positive, ?_⟩
  · change word (0 + piece.length) = _
    rw [Nat.zero_add]
    exact word_of_lt (by omega)
  · exact word_of_lt fits

theorem Holds.flush_written (holds : build.Holds closed chunk) :
    build.flush.written = (closed ++ [chunk]).map entryOf := by
  change build.written ++ [HbaPrdtEntry.ofChunk build.chunkPhysStart build.chunkBytes] = _
  rw [holds.written, holds.start, holds.bytes, map_append]
  rfl

theorem Holds.flush_lengths (holds : build.Holds closed chunk) :
    build.flush.chunkLengths = (closed ++ [chunk]).map Span.length := by
  change build.chunkLengths ++ [build.chunkBytes] = _
  rw [holds.lengths, holds.bytes, map_append]
  rfl

/-- A piece that continues the open chunk extends it; another one closes it. -/
theorem Holds.add {piece : Span} (holds : build.Holds closed chunk) (positive : 0 < piece.length)
    (fits : piece.start + piece.length < 2 ^ 64) (short : chunk.length + piece.length < 2 ^ 64) :
    if chunk.Continues piece then
      (build.add piece.start piece.length).Holds closed (chunk.extend piece.length)
    else (build.add piece.start piece.length).Holds (closed ++ [chunk]) piece := by
  have filled := holds.positive
  have nonempty : ¬ build.chunkBytes = 0 := by
    rw [holds.bytes]
    omega
  by_cases continues : chunk.Continues piece
  · rw [if_pos continues]
    unfold Span.Continues at continues
    have same : ¬ (build.chunkBytes = 0 ∨ piece.start ≠ build.lastPhysEnd) := by
      rintro (empty | apart)
      · exact nonempty empty
      · exact apart (continues.symm.trans holds.last.symm)
    unfold PrdtBuild.add
    rw [if_neg same]
    refine ⟨⟨holds.filed.index, holds.filed.stored⟩, holds.written, holds.lengths, holds.start,
      ?_, Nat.add_pos_left filled _, ?_⟩
    · change word (build.chunkBytes + piece.length) = chunk.length + piece.length
      rw [holds.bytes]
      exact word_of_lt short
    · change word (piece.start + piece.length) = chunk.start + (chunk.length + piece.length)
      rw [word_of_lt fits]
      omega
  · rw [if_neg continues]
    unfold Span.Continues at continues
    have apart : build.chunkBytes = 0 ∨ piece.start ≠ build.lastPhysEnd := by
      right
      rw [holds.last]
      exact fun same => continues same.symm
    have flushed : build.flushIfAny = build.flush := by
      unfold flushIfAny
      exact if_pos (by omega)
    have filed := holds.filed.flush
    unfold PrdtBuild.add
    rw [if_pos apart, flushed]
    refine ⟨⟨filed.index, filed.stored⟩, holds.flush_written, holds.flush_lengths, rfl, ?_,
      positive, ?_⟩
    · change word (0 + piece.length) = _
      rw [Nat.zero_add]
      exact word_of_lt (by omega)
    · exact word_of_lt fits

structure Wrote (build : PrdtBuild) (chunks : List Span) : Prop where
  filed : build.Filed
  written : build.written = chunks.map entryOf
  lengths : build.chunkLengths = chunks.map Span.length

/-- All pieces added and the last chunk flushed: the entries are those of the joined
pieces. -/
theorem Holds.finish {pieces : List Span} (holds : build.Holds closed chunk)
    (filled : ∀ piece ∈ pieces, 0 < piece.length)
    (fits : ∀ piece ∈ pieces, piece.start + piece.length < 2 ^ 64)
    (short : chunk.length + (pieces.map Span.length).sum < 2 ^ 64) :
    ((pieces.foldl (fun build piece => build.add piece.start piece.length) build).flushIfAny).Wrote
      (closed ++ joinSpans chunk pieces) := by
  induction pieces generalizing build closed chunk with
  | nil =>
    have positive := holds.positive
    have flushed : build.flushIfAny = build.flush := by
      unfold flushIfAny
      apply if_pos
      rw [holds.bytes]
      exact positive
    rw [foldl_nil, flushed]
    exact ⟨holds.filed.flush, holds.flush_written, holds.flush_lengths⟩
  | cons piece rest ih =>
    rw [map_cons, sum_cons] at short
    have restFilled : ∀ other ∈ rest, 0 < other.length := fun other member =>
      filled other (mem_cons_of_mem _ member)
    have restFits : ∀ other ∈ rest, other.start + other.length < 2 ^ 64 := fun other member =>
      fits other (mem_cons_of_mem _ member)
    have next := holds.add (filled piece mem_cons_self) (fits piece mem_cons_self)
      (by omega)
    rw [foldl_cons, joinSpans]
    by_cases continues : chunk.Continues piece
    · rw [if_pos continues] at next ⊢
      apply ih next restFilled restFits
      change chunk.length + piece.length + _ < _
      omega
    rw [if_neg continues] at next ⊢
    have finished := ih next restFilled restFits (by omega)
    rw [append_assoc] at finished
    exact finished

end PrdtBuild

/-! ### The table and the header -/

section Table

variable {Memory : Type} {lookup : Nat → Memory → Nat × Memory} {frame : Nat → Nat}
  {buffer bytes : Nat} {memory : Memory}

/-- The entries written are those of the joined pieces. -/
theorem prdtLoop_chunks (table : Nat → HbaPrdtEntry)
    (fits : ∀ page, frame page * 4096 + 4096 < 2 ^ 64) (bounded : buffer < 2 ^ 64)
    (short : bytes < 2 ^ 64) (translates : Translates lookup frame buffer bytes memory) :
    (prdtLoop lookup bytes buffer (PrdtBuild.start table) memory).1.flushIfAny.Wrote
      (joinAll (bufferPieces frame buffer bytes)) := by
  have filled := bufferPieces_filled frame buffer bytes
  have ends := bufferPieces_end fits buffer bytes
  have total := bufferPieces_sum frame buffer bytes
  have filed : (PrdtBuild.start table).Filed := ⟨rfl, fun _ _ _ impossible => by cases impossible⟩
  rw [prdtLoop_eq buffer bytes bounded translates]
  cases pieces : bufferPieces frame buffer bytes with
  | nil => exact ⟨filed, rfl, rfl⟩
  | cons first rest =>
    rw [pieces] at filled ends total
    rw [map_cons, sum_cons] at total
    have holds := PrdtBuild.Holds.first filed rfl rfl rfl (filled first mem_cons_self)
      (ends first mem_cons_self)
    exact holds.finish (fun piece member => filled piece (mem_cons_of_mem _ member))
      (fun piece member => ends piece (mem_cons_of_mem _ member)) (by omega)

end Table

namespace HbaPrdtEntry

def base (entry : HbaPrdtEntry) : Nat := entry.dba + 2 ^ 32 * entry.dbau

def addresses (entry : HbaPrdtEntry) : List Nat := List.range' entry.base (entry.dbc + 1)

theorem base_entryOf {span : Span} (bounded : span.start < 2 ^ 64) :
    (entryOf span).base = span.start := by
  change span.start % 2 ^ 32 + 2 ^ 32 * (span.start / 2 ^ 32 % 2 ^ 32) = span.start
  omega

theorem dbc_entryOf {span : Span} (positive : 0 < span.length) (short : span.length ≤ 2 ^ 22) :
    (entryOf span).dbc + 1 = span.length := by
  change (span.length - 1) % 2 ^ 22 + 1 = span.length
  omega

end HbaPrdtEntry

/-- The entries up to `prdtl` are all that were written, they give the addresses in order, and
none continues the one before. -/
structure AhciPort.Flattens (port : AhciPort) (addresses : List Nat) : Prop where
  flattened : (List.range port.commandHeader.prdtl).flatMap
    (fun index => (port.cmdtbl.prdtEntry index).addresses) = addresses
  counted : port.commandHeader.prdtl = port.entriesWritten
  apart : ∀ index, index + 1 < port.commandHeader.prdtl →
    (port.cmdtbl.prdtEntry index).base + (port.cmdtbl.prdtEntry index).dbc + 1 ≠
      (port.cmdtbl.prdtEntry (index + 1)).base

section Flattens

variable {Memory : Type} {lookup : Nat → Memory → Nat × Memory} {frame : Nat → Nat}
  {buffer bytes : Nat} {memory : Memory}

/-- Chunks that fit the table and the fields are told exactly. -/
theorem flattens_of_chunks {port : AhciPort} {chunks : List Span} (separated : Separated chunks)
    (few : chunks.length ≤ 248) (short : ∀ chunk ∈ chunks, chunk.length ≤ 2 ^ 22)
    (bounded : ∀ chunk ∈ chunks, chunk.start < 2 ^ 64)
    (counted : port.entriesWritten = chunks.length)
    (index : port.commandHeader.prdtl = chunks.length % 2 ^ 16)
    (stored : ∀ position chunk, chunks[position]? = some chunk →
      port.cmdtbl.prdtEntry position = entryOf chunk) :
    port.Flattens (spanItems chunks) := by
  have length : port.commandHeader.prdtl = chunks.length := by
    rw [index]
    exact Nat.mod_eq_of_lt (by omega)
  constructor
  · have entries : (List.range port.commandHeader.prdtl).map port.cmdtbl.prdtEntry =
        chunks.map entryOf := by
      apply ext_getElem?
      intro position
      rw [length, List.getElem?_map, List.getElem?_map]
      by_cases inside : position < chunks.length
      · rw [List.getElem?_range inside, List.getElem?_eq_getElem inside]
        exact congrArg some (stored position _ (List.getElem?_eq_getElem inside))
      · rw [List.getElem?_eq_none (by rw [length_range]; omega),
          List.getElem?_eq_none (Nat.not_lt.mp inside)]
        rfl
    have mapped : (List.range port.commandHeader.prdtl).flatMap
        (fun index => (port.cmdtbl.prdtEntry index).addresses) =
          (chunks.map entryOf).flatMap HbaPrdtEntry.addresses := by
      rw [← entries, flatMap_map]
    rw [mapped, flatMap_map]
    unfold spanItems
    apply flatMap_congr
    intro chunk member
    unfold HbaPrdtEntry.addresses
    rw [HbaPrdtEntry.base_entryOf (bounded chunk member),
      HbaPrdtEntry.dbc_entryOf (separated.filled chunk member) (short chunk member)]
    rfl
  · rw [length, counted]
  · intro position inside
    rw [length] at inside
    have here : chunks[position] ∈ chunks := getElem_mem _
    have next : chunks[position + 1] ∈ chunks := getElem_mem _
    have apart := isChain_iff_getElem.mp separated.apart position (by omega)
    rw [stored position _ (List.getElem?_eq_getElem (by omega)),
      stored (position + 1) _ (List.getElem?_eq_getElem inside),
      HbaPrdtEntry.base_entryOf (bounded _ here), HbaPrdtEntry.base_entryOf (bounded _ next),
      Nat.add_assoc, HbaPrdtEntry.dbc_entryOf (separated.filled _ here) (short _ here)]
    exact apart

/-- A transfer's PRDT, whatever its command is. -/
theorem ahciTransfer_flattens (w : Nat) (command48 command28 : UInt8) (info : LbdDeviceInfo)
    (lba count : Nat) (answers : List Nat) (port : AhciPort)
    (fits : ∀ page, frame page * 4096 + 4096 < 2 ^ 64) (bounded : buffer < 2 ^ 64)
    (translates : Translates lookup frame buffer (LbdLayer.transferBytes info count) memory)
    (few : ((bufferAddresses frame buffer (LbdLayer.transferBytes info count)).splitBy
      consecutive).length ≤ 248)
    (short : ∀ run ∈ (bufferAddresses frame buffer (LbdLayer.transferBytes info count)).splitBy
      consecutive, run.length ≤ 2 ^ 22) :
    (ahciTransfer lookup w command48 command28 info lba count buffer answers port
      memory).2.1.Flattens
        (bufferAddresses frame buffer (LbdLayer.transferBytes info count)) := by
  have bytesBounded : LbdLayer.transferBytes info count < 2 ^ 64 := word_lt _
  have separated := separated_joinAll
    (bufferPieces_filled frame buffer (LbdLayer.transferBytes info count))
  have items := spanItems_joinAll (bufferPieces frame buffer (LbdLayer.transferBytes info count))
  rw [bufferPieces_items frame buffer _ bounded] at items
  have runs := separated.splitBy
  rw [items] at runs
  rw [runs, length_map] at few
  obtain ⟨filed, written, _⟩ := prdtLoop_chunks port.cmdtbl.clear.prdtEntry fits bounded bytesBounded
    translates
  have lengths := congrArg List.length written
  rw [length_map] at lengths
  rw [← items]
  apply flattens_of_chunks separated few
  · intro chunk member
    have bound := short chunk.items (runs ▸ mem_map_of_mem member)
    rw [chunk.length_items] at bound
    exact bound
  · intro chunk member
    obtain ⟨piece, inside, same⟩ := start_of_mem_joinAll member
    have ends := bufferPieces_end fits buffer _ piece inside
    omega
  · exact lengths
  · rw [← lengths]
    exact filed.index
  · intro position chunk isChunk
    apply filed.stored (by omega)
    rw [written, List.getElem?_map, isChunk]
    rfl

end Flattens

/-- Reads and writes build the same PRDT, which lists the physical addresses of the buffer's
bytes in order, in maximal chunks. -/
theorem ahci_prdt_flattens {Memory : Type} (lookup : Nat → Memory → Nat × Memory)
    (info : LbdDeviceInfo) (lba count buffer : Nat) (answers : List Nat) (port : AhciPort)
    (memory : Memory) (frame : Nat → Nat) (fits : ∀ page, frame page * 4096 + 4096 < 2 ^ 64)
    (bounded : buffer < 2 ^ 64)
    (translates : Translates lookup frame buffer (LbdLayer.transferBytes info count) memory)
    (few : ((bufferAddresses frame buffer (LbdLayer.transferBytes info count)).splitBy
      consecutive).length ≤ 248)
    (short : ∀ run ∈ (bufferAddresses frame buffer (LbdLayer.transferBytes info count)).splitBy
      consecutive, run.length ≤ 2 ^ 22) :
    (ahciRead lookup info lba count buffer answers port memory).2.1.Flattens
        (bufferAddresses frame buffer (LbdLayer.transferBytes info count)) ∧
      (ahciWrite lookup info lba count buffer answers port memory).2.1.Flattens
        (bufferAddresses frame buffer (LbdLayer.transferBytes info count)) ∧
      (ahciWrite lookup info lba count buffer answers port memory).2.1.cmdtbl.prdtEntry =
        (ahciRead lookup info lba count buffer answers port memory).2.1.cmdtbl.prdtEntry ∧
      (ahciWrite lookup info lba count buffer answers port memory).2.1.commandHeader.prdtl =
        (ahciRead lookup info lba count buffer answers port memory).2.1.commandHeader.prdtl := by
  refine ⟨?_, ?_, rfl, rfl⟩
  · exact ahciTransfer_flattens 0 0x25 0xC8 info lba count answers port fits bounded translates few
      short
  · exact ahciTransfer_flattens 1 0x35 0xCA info lba count answers port fits bounded translates few
      short

/-- Four bytes across the end of a page whose successor stands on a lower frame: two entries
of two bytes. -/
theorem ahci_prdt_flattens_across :
    (ahciRead (fun vAddr (memory : Unit) => (pageTranslation (fun page => 9 - page) vAddr, memory))
      ⟨1000, 2, 2, 0, 128, 1⟩ 0 2 0x1FFE [] (idlePort true) ()).2.1.Flattens
        [0x8FFE, 0x8FFF, 0x7000, 0x7001] :=
  (ahci_prdt_flattens _ ⟨1000, 2, 2, 0, 128, 1⟩ 0 2 0x1FFE [] (idlePort true) ()
    (fun page => 9 - page) (fun page => by omega) (by decide) (fun _ _ => rfl) (by decide)
    (by decide)).1

end Fesos
