/-
Doubly linked lists.

`Segment next prev behind head items ahead` says that following `next` from
`head` visits exactly the items and then arrives at `ahead`, and that `prev` leads
back from each item to the one before it, from the first to `behind`.  Segments
compose, so an edit in the middle of a list is an edit at the ends of its two
halves.  A doubly linked list is a segment between two zeros.
-/

import Mathlib.Data.List.Nodup
import Mathlib.Logic.Function.Basic

set_option autoImplicit false

namespace Fesos.Library

open List

def Segment (next prev : Nat → Nat) : Nat → Nat → List Nat → Nat → Prop
  | _, head, [], ahead => head = ahead
  | behind, head, item :: items, ahead =>
    head = item ∧ item ≠ 0 ∧ prev item = behind ∧ Segment next prev item (next item) items ahead

def DoublyLinked (next prev : Nat → Nat) (head : Nat) (items : List Nat) : Prop :=
  Segment next prev 0 head items 0

namespace Segment

variable {next prev newNext newPrev : Nat → Nat} {behind head ahead newAhead newBehind : Nat}
  {items front back : List Nat}

theorem congr (segment : Segment next prev behind head items ahead)
    (sameNext : ∀ item ∈ items, newNext item = next item)
    (samePrev : ∀ item ∈ items, newPrev item = prev item) :
    Segment newNext newPrev behind head items ahead := by
  induction items generalizing behind head with
  | nil => exact segment
  | cons item items ih =>
    obtain ⟨here, nonzero, back, rest⟩ := segment
    constructor
    · exact here
    · constructor
      · exact nonzero
      · constructor
        · rw [samePrev item mem_cons_self]
          exact back
        · rw [sameNext item mem_cons_self]
          apply ih rest
          · intro other member
            exact sameNext other (mem_cons_of_mem _ member)
          · intro other member
            exact samePrev other (mem_cons_of_mem _ member)

theorem ne_zero (segment : Segment next prev behind head items ahead) {item : Nat}
    (member : item ∈ items) : item ≠ 0 := by
  induction items generalizing behind head with
  | nil => cases member
  | cons first items ih =>
    rcases mem_cons.mp member with same | later
    · rw [same]
      exact segment.2.1
    · exact ih segment.2.2.2 later

theorem head_mem (segment : Segment next prev behind head items ahead) (present : head ≠ ahead) :
    head ∈ items := by
  cases items with
  | nil => exact absurd segment present
  | cons first items =>
    rw [segment.1]
    exact mem_cons_self

theorem getLastD_mem (behind : Nat) (present : items ≠ []) : items.getLastD behind ∈ items := by
  rw [getLastD_eq_getLast?, List.getLast?_eq_some_getLast present]
  exact getLast_mem present

theorem append (segment : Segment next prev behind head (front ++ back) ahead) :
    ∃ middle, Segment next prev behind head front middle ∧
      Segment next prev (front.getLastD behind) middle back ahead := by
  induction front generalizing behind head with
  | nil => exact ⟨head, rfl, segment⟩
  | cons first front ih =>
    obtain ⟨here, nonzero, isPrev, rest⟩ := segment
    obtain ⟨middle, left, right⟩ := ih rest
    rw [getLastD_cons]
    exact ⟨middle, ⟨here, nonzero, isPrev, left⟩, right⟩

theorem join {middle : Nat} (left : Segment next prev behind head front middle)
    (right : Segment next prev (front.getLastD behind) middle back ahead) :
    Segment next prev behind head (front ++ back) ahead := by
  induction front generalizing behind head with
  | nil =>
    rw [show head = middle from left]
    exact right
  | cons first front ih =>
    obtain ⟨here, nonzero, isPrev, rest⟩ := left
    rw [getLastD_cons] at right
    exact ⟨here, nonzero, isPrev, ih rest right⟩

/-- The first item is given a new one behind it. -/
theorem rebase (segment : Segment next prev behind head items ahead) (distinct : items.Nodup)
    (sameNext : ∀ item ∈ items, newNext item = next item)
    (samePrev : ∀ item ∈ items, item ≠ head → newPrev item = prev item)
    (first : head ∈ items → newPrev head = newBehind) :
    Segment newNext newPrev newBehind head items ahead := by
  cases items with
  | nil => exact segment
  | cons item items =>
    obtain ⟨here, nonzero, _, rest⟩ := segment
    subst here
    have outside := (nodup_cons.mp distinct).1
    constructor
    · rfl
    · constructor
      · exact nonzero
      · constructor
        · exact first mem_cons_self
        · rw [sameNext head mem_cons_self]
          apply rest.congr
          · intro other member
            exact sameNext other (mem_cons_of_mem _ member)
          · intro other member
            apply samePrev other (mem_cons_of_mem _ member)
            intro same
            rw [same] at member
            exact outside member

/-- The last item is given a new one ahead of it; an empty segment moves its head. -/
theorem retarget (segment : Segment next prev behind head items ahead) (distinct : items.Nodup)
    (sameNext : ∀ item ∈ items, item ≠ items.getLastD behind → newNext item = next item)
    (samePrev : ∀ item ∈ items, newPrev item = prev item)
    (last : items ≠ [] → newNext (items.getLastD behind) = newAhead) :
    Segment newNext newPrev behind (if items = [] then newAhead else head) items newAhead := by
  induction items generalizing behind head with
  | nil =>
    rw [if_pos rfl]
    rfl
  | cons item items ih =>
    obtain ⟨here, nonzero, isPrev, rest⟩ := segment
    have outside := (nodup_cons.mp distinct).1
    rw [if_neg (cons_ne_nil item items)]
    rw [getLastD_cons] at sameNext last
    constructor
    · exact here
    · constructor
      · exact nonzero
      · constructor
        · rw [samePrev item mem_cons_self]
          exact isPrev
        · have inner := ih rest (nodup_cons.mp distinct).2
            (fun other member => sameNext other (mem_cons_of_mem _ member))
            (fun other member => samePrev other (mem_cons_of_mem _ member))
            (fun _ => last (cons_ne_nil item items))
          by_cases empty : items = []
          · rw [empty] at last ⊢
            exact last (cons_ne_nil item [])
          rw [if_neg empty] at inner
          have notLast : item ≠ items.getLastD item := by
            intro same
            apply outside
            rw [same]
            exact getLastD_mem item empty
          rw [sameNext item mem_cons_self notLast]
          exact inner

end Segment

namespace DoublyLinked

variable {next prev newNext newPrev : Nat → Nat} {head item : Nat} {items front back : List Nat}

theorem head_eq_zero (linked : DoublyLinked next prev head items) : head = 0 ↔ items = [] := by
  cases items with
  | nil =>
    constructor
    · intro _
      rfl
    · intro _
      exact linked
  | cons first items =>
    constructor
    · intro zero
      exact absurd (linked.1.symm.trans zero) linked.2.1
    · intro empty
      cases empty

theorem head_mem (linked : DoublyLinked next prev head items) (present : head ≠ 0) :
    head ∈ items :=
  Segment.head_mem linked present

theorem prev_mem (linked : DoublyLinked next prev head (front ++ item :: back))
    (present : prev item ≠ 0) : prev item ∈ front := by
  obtain ⟨middle, _, _, _, isPrev, _⟩ := Segment.append linked
  rw [isPrev] at present ⊢
  exact Segment.getLastD_mem 0 (fun empty => present (by rw [empty]; rfl))

theorem next_mem (linked : DoublyLinked next prev head (front ++ item :: back))
    (present : next item ≠ 0) : next item ∈ back := by
  obtain ⟨middle, _, _, _, _, rest⟩ := Segment.append linked
  exact rest.head_mem present

theorem push (linked : DoublyLinked next prev head items) (distinct : items.Nodup)
    (nonzero : item ≠ 0) (ahead : newNext item = head) (first : newPrev item = 0)
    (second : head ≠ 0 → newPrev head = item)
    (sameNext : ∀ other ∈ items, newNext other = next other)
    (samePrev : ∀ other ∈ items, other ≠ head → newPrev other = prev other) :
    DoublyLinked newNext newPrev item (item :: items) := by
  constructor
  · rfl
  · constructor
    · exact nonzero
    · constructor
      · exact first
      · rw [ahead]
        apply Segment.rebase linked distinct sameNext samePrev
        intro member
        exact second (Segment.ne_zero linked member)

/-- Taking an item out: the item before it, or the head, leads past it, and the
item behind it leads back past it. -/
theorem remove (linked : DoublyLinked next prev head (front ++ item :: back))
    (distinct : (front ++ item :: back).Nodup)
    (past : prev item ≠ 0 → newNext (prev item) = next item)
    (sameNext : ∀ other ∈ front ++ back, other ≠ prev item → newNext other = next other)
    (pastBack : next item ≠ 0 → newPrev (next item) = prev item)
    (samePrev : ∀ other ∈ front ++ back, other ≠ next item → newPrev other = prev other) :
    DoublyLinked newNext newPrev (if prev item = 0 then next item else head) (front ++ back) := by
  obtain ⟨middle, left, right⟩ := Segment.append linked
  obtain ⟨_, nonzero, isPrev, rest⟩ := right
  obtain ⟨frontDistinct, itemDistinct, apart⟩ := nodup_append.mp distinct
  have backDistinct := (nodup_cons.mp itemDistinct).2
  have frontPart : Segment newNext newPrev 0 (if front = [] then next item else head) front
      (next item) := by
    apply left.retarget frontDistinct
    · intro other member notLast
      apply sameNext other (mem_append_left _ member)
      rw [isPrev]
      exact notLast
    · intro other member
      apply samePrev other (mem_append_left _ member)
      rintro rfl
      have inBack := linked.next_mem (left.ne_zero member)
      exact apart _ member _ (mem_cons_of_mem _ inBack) rfl
    · intro present
      rw [← isPrev]
      apply past
      rw [isPrev]
      exact left.ne_zero (Segment.getLastD_mem 0 present)
  have backPart : Segment newNext newPrev (front.getLastD 0) (next item) back 0 := by
    apply rest.rebase backDistinct
    · intro other member
      apply sameNext other (mem_append_right _ member)
      rintro rfl
      have inFront := linked.prev_mem (rest.ne_zero member)
      exact apart _ inFront _ (mem_cons_of_mem _ member) rfl
    · intro other member notHead
      exact samePrev other (mem_append_right _ member) notHead
    · intro member
      rw [← isPrev]
      exact pastBack (rest.ne_zero member)
  have prevZero : prev item = 0 ↔ front = [] := by
    rw [isPrev]
    constructor
    · intro zero
      by_contra present
      exact left.ne_zero (Segment.getLastD_mem 0 present) zero
    · intro empty
      rw [empty]
      rfl
  simp only [prevZero]
  exact frontPart.join backPart

end DoublyLinked

end Fesos.Library
