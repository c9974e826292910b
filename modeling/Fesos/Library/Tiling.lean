/-
Tilings of an address range by items that have a start and a size: splitting an
item in two, absorbing neighbours, and what a tiling says about its items.
`Covers` allows empty items, `Tiles` does not.
-/

import Mathlib.Data.List.Nodup
import Mathlib.Tactic

set_option autoImplicit false

namespace Fesos.Library

open List

universe u

variable {Item : Type u}

/-- The items lie one behind the other from the base to the limit. -/
def Covers (start size : Item → Nat) (limit : Nat) : Nat → List Item → Prop
  | base, [] => base = limit
  | base, item :: items => start item = base ∧ Covers start size limit (base + size item) items

namespace Covers

variable {start size newStart newSize : Item → Nat} {base limit : Nat} {items front back : List Item}

theorem append_iff : Covers start size limit base (front ++ back) ↔
    ∃ middle, Covers start size middle base front ∧ Covers start size limit middle back := by
  induction front generalizing base with
  | nil => simp [Covers]
  | cons item front ih =>
    simp only [cons_append, Covers, ih]
    constructor
    · rintro ⟨here, middle, first, second⟩
      exact ⟨middle, ⟨here, first⟩, second⟩
    · rintro ⟨middle, ⟨here, first⟩, second⟩
      exact ⟨here, middle, first, second⟩

theorem sum_eq (covers : Covers start size limit base items) :
    base + (items.map size).sum = limit := by
  induction items generalizing base with
  | nil => exact covers
  | cons item items ih =>
    rw [map_cons, sum_cons, ← Nat.add_assoc]
    exact ih covers.2

theorem congr (covers : Covers start size limit base items)
    (starts : ∀ item ∈ items, newStart item = start item)
    (sizes : ∀ item ∈ items, newSize item = size item) :
    Covers newStart newSize limit base items := by
  induction items generalizing base with
  | nil => exact covers
  | cons item items ih =>
    obtain ⟨here, rest⟩ := covers
    rw [Covers, starts item mem_cons_self, sizes item mem_cons_self]
    exact ⟨here, ih rest (fun other member => starts other (mem_cons_of_mem _ member))
      (fun other member => sizes other (mem_cons_of_mem _ member))⟩

/-- The items of a part of a covering lie inside the whole part. -/
theorem inside (covers : Covers start size limit base items) {item : Item} (member : item ∈ items) :
    base ≤ start item ∧ start item + size item ≤ base + (items.map size).sum := by
  induction items generalizing base with
  | nil => cases member
  | cons first items ih =>
    obtain ⟨here, rest⟩ := covers
    rw [map_cons, sum_cons]
    rcases mem_cons.mp member with same | later
    · subst same
      omega
    · have inner := ih rest later
      omega

/-- The items in front of an item end before it, those behind start after it. -/
theorem sides {item : Item} (covers : Covers start size limit base (front ++ item :: back)) :
    (∀ other ∈ front, start other + size other ≤ start item) ∧
      ∀ other ∈ back, start item + size item ≤ start other := by
  obtain ⟨middle, first, here, second⟩ := append_iff.mp covers
  constructor
  · intro other member
    rw [here, ← first.sum_eq]
    exact (first.inside member).2
  · intro other member
    rw [here]
    exact (second.inside member).1

/-- Cut an item in two. -/
theorem split {item rest : Item} {amount : Nat}
    (covers : Covers start size limit base (front ++ item :: back))
    (smaller : amount ≤ size item)
    (itemStart : newStart item = start item) (itemSize : newSize item = amount)
    (restStart : newStart rest = start item + amount)
    (restSize : newSize rest = size item - amount)
    (starts : ∀ other ∈ front ++ back, newStart other = start other)
    (sizes : ∀ other ∈ front ++ back, newSize other = size other) :
    Covers newStart newSize limit base (front ++ item :: rest :: back) := by
  obtain ⟨middle, first, here, second⟩ := append_iff.mp covers
  have frontSame := first.congr (fun other member => starts other (mem_append_left _ member))
    (fun other member => sizes other (mem_append_left _ member))
  have backSame := second.congr (fun other member => starts other (mem_append_right _ member))
    (fun other member => sizes other (mem_append_right _ member))
  refine append_iff.mpr ⟨middle, frontSame, itemStart.trans here, ?_, ?_⟩
  · omega
  · have joined : middle + newSize item + newSize rest = middle + size item := by omega
    rw [joined]
    exact backSame

/-- Let an item absorb the items right behind it. -/
theorem absorb {item : Item} {gone : List Item}
    (covers : Covers start size limit base (front ++ item :: (gone ++ back)))
    (itemStart : newStart item = start item)
    (itemSize : newSize item = size item + (gone.map size).sum)
    (starts : ∀ other ∈ front ++ back, newStart other = start other)
    (sizes : ∀ other ∈ front ++ back, newSize other = size other) :
    Covers newStart newSize limit base (front ++ item :: back) := by
  obtain ⟨middle, first, here, rest⟩ := append_iff.mp covers
  obtain ⟨behind, absorbed, second⟩ := append_iff.mp rest
  have frontSame := first.congr (fun other member => starts other (mem_append_left _ member))
    (fun other member => sizes other (mem_append_left _ member))
  have backSame := second.congr (fun other member => starts other (mem_append_right _ member))
    (fun other member => sizes other (mem_append_right _ member))
  refine append_iff.mpr ⟨middle, frontSame, itemStart.trans here, ?_⟩
  rw [itemSize, ← Nat.add_assoc, absorbed.sum_eq]
  exact backSame

end Covers

/-- The items lie one behind the other from the base to the limit, none empty. -/
def Tiles (start size : Item → Nat) (limit : Nat) : Nat → List Item → Prop
  | base, [] => base = limit
  | base, item :: items =>
    start item = base ∧ 0 < size item ∧ Tiles start size limit (base + size item) items

instance decidableTiles (start size : Item → Nat) (limit : Nat) :
    ∀ (base : Nat) (items : List Item), Decidable (Tiles start size limit base items)
  | base, [] => inferInstanceAs (Decidable (base = limit))
  | base, item :: items =>
    have := decidableTiles start size limit (base + size item) items
    inferInstanceAs (Decidable (start item = base ∧ 0 < size item ∧
      Tiles start size limit (base + size item) items))

namespace Tiles

variable {start size newStart newSize : Item → Nat} {base limit : Nat} {items front back : List Item}

theorem iff_covers : Tiles start size limit base items ↔
    Covers start size limit base items ∧ ∀ item ∈ items, 0 < size item := by
  induction items generalizing base with
  | nil => simp [Tiles, Covers]
  | cons item items ih =>
    simp only [Tiles, Covers, ih, forall_mem_cons]
    constructor
    · rintro ⟨here, positive, covers, rest⟩
      exact ⟨⟨here, covers⟩, positive, rest⟩
    · rintro ⟨⟨here, covers⟩, positive, rest⟩
      exact ⟨here, positive, covers, rest⟩

section

variable (tiles : Tiles start size limit base items)

include tiles

theorem base_le : base ≤ limit := by
  induction items generalizing base with
  | nil => exact Nat.le_of_eq tiles
  | cons item items ih =>
    have rest := ih tiles.2.2
    omega

theorem bounds {item : Item} (member : item ∈ items) :
    base ≤ start item ∧ 0 < size item ∧ start item + size item ≤ limit := by
  induction items generalizing base with
  | nil => cases member
  | cons first items ih =>
    obtain ⟨here, positive, rest⟩ := tiles
    rcases mem_cons.mp member with same | later
    · subst same
      have room := rest.base_le
      omega
    · have inner := ih rest later
      omega

/-- Items in order do not overlap. -/
theorem pairwise :
    items.Pairwise (fun earlier later => start earlier + size earlier ≤ start later) := by
  induction items generalizing base with
  | nil => exact List.Pairwise.nil
  | cons item items ih =>
    obtain ⟨here, _, rest⟩ := tiles
    refine List.Pairwise.cons ?_ (ih rest)
    intro later member
    rw [here]
    exact (rest.bounds member).1

/-- Items with a common address are the same item. -/
theorem eq_of_overlap {first second : Item}
    (firstIn : first ∈ items) (secondIn : second ∈ items) (address : Nat)
    (inFirst : start first ≤ address ∧ address < start first + size first)
    (inSecond : start second ≤ address ∧ address < start second + size second) :
    first = second := by
  induction items generalizing base with
  | nil => cases firstIn
  | cons item items ih =>
    obtain ⟨here, _, rest⟩ := tiles
    rcases mem_cons.mp firstIn with isFirst | firstLater
    · rcases mem_cons.mp secondIn with isSecond | secondLater
      · rw [isFirst, isSecond]
      · have later := (rest.bounds secondLater).1
        rw [isFirst] at inFirst
        omega
    · rcases mem_cons.mp secondIn with isSecond | secondLater
      · have later := (rest.bounds firstLater).1
        rw [isSecond] at inSecond
        omega
      · exact ih rest firstLater secondLater

end

theorem length_mul_le (unit : Nat) (tiles : Tiles start size limit base items)
    (atLeast : ∀ item ∈ items, unit ≤ size item) : base + unit * items.length ≤ limit := by
  induction items generalizing base with
  | nil => exact Nat.le_of_eq tiles
  | cons item items ih =>
    have rest := ih tiles.2.2 (fun other member => atLeast other (mem_cons_of_mem _ member))
    have here := atLeast item mem_cons_self
    rw [length_cons, Nat.mul_succ]
    omega

theorem congr (tiles : Tiles start size limit base items)
    (starts : ∀ item ∈ items, newStart item = start item)
    (sizes : ∀ item ∈ items, newSize item = size item) :
    Tiles newStart newSize limit base items := by
  induction items generalizing base with
  | nil => exact tiles
  | cons item items ih =>
    obtain ⟨here, positive, rest⟩ := tiles
    rw [Tiles, starts item mem_cons_self, sizes item mem_cons_self]
    exact ⟨here, positive, ih rest (fun other member => starts other (mem_cons_of_mem _ member))
      (fun other member => sizes other (mem_cons_of_mem _ member))⟩

/-- Cut an item in two. -/
theorem split {item rest : Item} {amount : Nat}
    (tiles : Tiles start size limit base (front ++ item :: back))
    (positive : 0 < amount) (smaller : amount < size item)
    (itemStart : newStart item = start item) (itemSize : newSize item = amount)
    (restStart : newStart rest = start item + amount)
    (restSize : newSize rest = size item - amount)
    (starts : ∀ other ∈ front ++ back, newStart other = start other)
    (sizes : ∀ other ∈ front ++ back, newSize other = size other) :
    Tiles newStart newSize limit base (front ++ item :: rest :: back) := by
  obtain ⟨covers, allPositive⟩ := iff_covers.mp tiles
  refine iff_covers.mpr ⟨covers.split (Nat.le_of_lt smaller) itemStart itemSize restStart restSize
    starts sizes, ?_⟩
  intro other member
  simp only [mem_append, mem_cons] at member
  rcases member with inFront | isItem | isRest | inBack
  · rw [sizes other (mem_append_left _ inFront)]
    exact allPositive other (mem_append_left _ inFront)
  · rw [isItem]
    omega
  · rw [isRest]
    omega
  · rw [sizes other (mem_append_right _ inBack)]
    exact allPositive other (mem_append_right _ (mem_cons_of_mem _ inBack))

/-- Let an item absorb the items right behind it. -/
theorem absorb {item : Item} {gone : List Item}
    (tiles : Tiles start size limit base (front ++ item :: (gone ++ back)))
    (itemStart : newStart item = start item)
    (itemSize : newSize item = size item + (gone.map size).sum)
    (starts : ∀ other ∈ front ++ back, newStart other = start other)
    (sizes : ∀ other ∈ front ++ back, newSize other = size other) :
    Tiles newStart newSize limit base (front ++ item :: back) := by
  obtain ⟨covers, positive⟩ := iff_covers.mp tiles
  refine iff_covers.mpr ⟨covers.absorb itemStart itemSize starts sizes, ?_⟩
  intro other member
  rcases mem_append.mp member with inFront | inRest
  · rw [sizes other (mem_append_left _ inFront)]
    exact positive other (mem_append_left _ inFront)
  rcases mem_cons.mp inRest with same | inBack
  · have itemPositive := positive item (mem_append_right _ mem_cons_self)
    rw [same, itemSize]
    omega
  · rw [sizes other (mem_append_right _ inBack)]
    apply positive
    exact mem_append_right _ (mem_cons_of_mem _ (mem_append_right _ inBack))

end Tiles

end Fesos.Library
