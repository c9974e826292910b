/-
Spans of consecutive numbers.

A list of spans stands for the numbers in them, one after the other.  Joining a span
with the ones that continue it keeps the numbers, and leaves the maximal runs of
consecutive numbers.
-/

import Mathlib.Data.List.SplitBy
import Mathlib.Tactic

set_option autoImplicit false

namespace Fesos.Library

open List

structure Span where
  start : Nat
  length : Nat
  deriving DecidableEq, Repr

namespace Span

def items (span : Span) : List Nat := List.range' span.start span.length

def Continues (left right : Span) : Prop := left.start + left.length = right.start

instance decidableContinues (left right : Span) : Decidable (left.Continues right) :=
  inferInstanceAs (Decidable (_ = _))

def extend (span : Span) (length : Nat) : Span := ⟨span.start, span.length + length⟩

theorem items_extend {left right : Span} (continues : left.Continues right) :
    (left.extend right.length).items = left.items ++ right.items := by
  unfold Continues at continues
  unfold items extend
  rw [← continues]
  have appended : List.range' left.start left.length 1 ++
      List.range' (left.start + 1 * left.length) right.length 1 =
        List.range' left.start (left.length + right.length) 1 := List.range'_append
  rw [Nat.one_mul] at appended
  exact appended.symm

theorem length_items (span : Span) : span.items.length = span.length :=
  length_range' ..

end Span

def consecutive (left right : Nat) : Bool := right == left + 1

def spanItems (spans : List Span) : List Nat := spans.flatMap Span.items

/-- Spans that are not empty, none of which continues the one before. -/
structure Separated (spans : List Span) : Prop where
  filled : ∀ span ∈ spans, 0 < span.length
  apart : spans.IsChain (fun left right => ¬ left.Continues right)

section Separated

variable {spans : List Span} {first : Span}

theorem Separated.tail (separated : Separated (first :: spans)) : Separated spans where
  filled := fun span member => separated.filled span (mem_cons_of_mem _ member)
  apart := separated.apart.tail

theorem Separated.cons (separated : Separated spans) (positive : 0 < first.length)
    (apart : ∀ next ∈ spans.head?, ¬ first.Continues next) : Separated (first :: spans) where
  filled := by
    exact forall_mem_cons.mpr ⟨positive, separated.filled⟩
  apart := isChain_cons.mpr ⟨apart, separated.apart⟩

theorem isChain_items (span : Span) :
    span.items.IsChain (fun left right => consecutive left right = true) := by
  unfold Span.items
  rw [isChain_iff_getElem]
  intro index inRange
  simp [consecutive, getElem_range']
  omega

theorem head_items {span : Span} (filled : span.items ≠ []) :
    span.items.head filled = span.start := by
  unfold Span.items
  exact head_range' ..

theorem getLast_items {span : Span} (filled : span.items ≠ []) :
    span.items.getLast filled + 1 = span.start + span.length := by
  have positive : 0 < span.length := by
    rw [← span.length_items]
    exact length_pos_iff.mpr filled
  have last : span.items.getLast filled = span.start + span.length - 1 :=
    getLast_range' ..
  omega

/-- Separated spans are the maximal runs of their numbers. -/
theorem Separated.splitBy (separated : Separated spans) :
    (spanItems spans).splitBy consecutive = spans.map Span.items := by
  have nonempty : ∀ span ∈ spans, span.items ≠ [] := by
    intro span member
    apply length_pos_iff.mp
    rw [span.length_items]
    exact separated.filled span member
  unfold spanItems
  rw [flatMap_def]
  apply splitBy_flatten
  · intro inside
    obtain ⟨span, member, isNil⟩ := mem_map.mp inside
    exact nonempty span member isNil
  · intro run inside
    obtain ⟨span, _, isRun⟩ := mem_map.mp inside
    rw [← isRun]
    exact isChain_items span
  · rw [isChain_map]
    apply separated.apart.imp_of_mem_imp
    intro left right leftIn rightIn apart
    refine ⟨nonempty left leftIn, nonempty right rightIn, ?_⟩
    have last := getLast_items (nonempty left leftIn)
    rw [head_items]
    unfold consecutive
    rw [beq_eq_false_iff_ne]
    intro next
    apply apart
    unfold Span.Continues
    omega

end Separated

/-! ### Joining -/

/-- A span is joined with the following ones as long as they continue it. -/
def joinSpans (current : Span) : List Span → List Span
  | [] => [current]
  | span :: rest =>
    if current.Continues span then joinSpans (current.extend span.length) rest
    else current :: joinSpans span rest

section Join

variable {current : Span} {spans : List Span}

theorem spanItems_join (current : Span) (spans : List Span) :
    spanItems (joinSpans current spans) = current.items ++ spanItems spans := by
  unfold spanItems
  induction spans generalizing current with
  | nil =>
    rw [joinSpans, flatMap_cons]
  | cons span rest ih =>
    rw [joinSpans, flatMap_cons]
    by_cases continues : current.Continues span
    · rw [if_pos continues, ih, Span.items_extend continues, append_assoc]
    · rw [if_neg continues, flatMap_cons, ih]

theorem head_join (current : Span) (spans : List Span) :
    ∃ length rest, joinSpans current spans = ⟨current.start, length⟩ :: rest := by
  induction spans generalizing current with
  | nil => exact ⟨current.length, [], rfl⟩
  | cons span rest ih =>
    rw [joinSpans]
    by_cases continues : current.Continues span
    · rw [if_pos continues]
      exact ih (current.extend span.length)
    · rw [if_neg continues]
      exact ⟨current.length, joinSpans span rest, rfl⟩

theorem separated_join (positive : 0 < current.length)
    (filled : ∀ span ∈ spans, 0 < span.length) : Separated (joinSpans current spans) := by
  induction spans generalizing current with
  | nil =>
    constructor
    · intro span member
      rw [mem_singleton.mp member]
      exact positive
    · exact isChain_singleton _
  | cons span rest ih =>
    have restFilled : ∀ other ∈ rest, 0 < other.length := fun other member =>
      filled other (mem_cons_of_mem _ member)
    rw [joinSpans]
    by_cases continues : current.Continues span
    · rw [if_pos continues]
      exact ih (Nat.add_pos_left positive _) restFilled
    rw [if_neg continues]
    apply (ih (filled span mem_cons_self) restFilled).cons positive
    intro next isHead
    obtain ⟨length, later, joined⟩ := head_join span rest
    rw [joined] at isHead
    cases isHead
    exact continues

theorem length_join_le (current : Span) (spans : List Span) :
    (joinSpans current spans).length ≤ spans.length + 1 := by
  induction spans generalizing current with
  | nil => exact Nat.le_refl _
  | cons span rest ih =>
    rw [joinSpans, length_cons]
    by_cases continues : current.Continues span
    · rw [if_pos continues]
      have shorter := ih (current.extend span.length)
      omega
    · rw [if_neg continues, length_cons]
      have shorter := ih span
      omega

/-- Separated spans are not joined. -/
theorem join_separated (separated : Separated (current :: spans)) :
    joinSpans current spans = current :: spans := by
  induction spans generalizing current with
  | nil => rfl
  | cons span rest ih =>
    have apart := (isChain_cons.mp separated.apart).1 span rfl
    rw [joinSpans, if_neg apart, ih separated.tail]

/-- No span of the joined list is longer than all of them together. -/
theorem length_of_mem_join {span : Span} (member : span ∈ joinSpans current spans) :
    span.length ≤ current.length + (spans.map Span.length).sum := by
  induction spans generalizing current with
  | nil =>
    rw [mem_singleton.mp member]
    exact Nat.le_add_right _ _
  | cons first rest ih =>
    rw [joinSpans] at member
    rw [map_cons, sum_cons]
    by_cases continues : current.Continues first
    · rw [if_pos continues] at member
      have bound := ih member
      change _ ≤ current.length + first.length + _ at bound
      omega
    rw [if_neg continues] at member
    rcases mem_cons.mp member with isCurrent | later
    · rw [isCurrent]
      omega
    · have bound := ih later
      omega

/-- A joined span starts where one of the spans does. -/
theorem start_of_mem_join {span : Span} (member : span ∈ joinSpans current spans) :
    ∃ first ∈ current :: spans, span.start = first.start := by
  induction spans generalizing current with
  | nil =>
    rw [mem_singleton.mp member]
    exact ⟨current, mem_cons_self, rfl⟩
  | cons next rest ih =>
    rw [joinSpans] at member
    by_cases continues : current.Continues next
    · rw [if_pos continues] at member
      obtain ⟨first, inside, same⟩ := ih member
      rcases mem_cons.mp inside with isCurrent | later
      · rw [isCurrent] at same
        exact ⟨current, mem_cons_self, same⟩
      · exact ⟨first, mem_cons_of_mem _ (mem_cons_of_mem _ later), same⟩
    · rw [if_neg continues] at member
      rcases mem_cons.mp member with isCurrent | later
      · exact ⟨current, mem_cons_self, congrArg Span.start isCurrent⟩
      · obtain ⟨first, inside, same⟩ := ih later
        exact ⟨first, mem_cons_of_mem _ inside, same⟩

end Join

def joinAll : List Span → List Span
  | [] => []
  | first :: rest => joinSpans first rest

section JoinAll

variable {spans : List Span}

theorem spanItems_joinAll (spans : List Span) : spanItems (joinAll spans) = spanItems spans := by
  cases spans with
  | nil => rfl
  | cons first rest => exact spanItems_join first rest

theorem separated_joinAll (filled : ∀ span ∈ spans, 0 < span.length) : Separated (joinAll spans) := by
  cases spans with
  | nil => exact ⟨nofun, isChain_nil⟩
  | cons first rest =>
    exact separated_join (filled first mem_cons_self)
      (fun span member => filled span (mem_cons_of_mem _ member))

theorem length_joinAll_le (spans : List Span) : (joinAll spans).length ≤ spans.length := by
  cases spans with
  | nil => exact Nat.le_refl _
  | cons first rest => exact length_join_le first rest

theorem joinAll_separated (separated : Separated spans) : joinAll spans = spans := by
  cases spans with
  | nil => rfl
  | cons first rest => exact join_separated separated

theorem length_of_mem_joinAll {span : Span} (member : span ∈ joinAll spans) :
    span.length ≤ (spans.map Span.length).sum := by
  cases spans with
  | nil => cases member
  | cons first rest => exact length_of_mem_join member

theorem start_of_mem_joinAll {span : Span} (member : span ∈ joinAll spans) :
    ∃ first ∈ spans, span.start = first.start := by
  cases spans with
  | nil => cases member
  | cons first rest => exact start_of_mem_join member

end JoinAll

end Fesos.Library
