/-
Singly linked lists: `Chain next head items` says that following `next` from
`head` visits exactly the items and then ends at zero, `Trail` the same of a list
whose end is not marked, and `Leads` the same of a part of a list.  Links that have
only so many values reach what they ever reach within as many steps.
-/

import Mathlib.Data.Fintype.Pigeonhole
import Mathlib.Data.List.Nodup

set_option autoImplicit false

namespace Fesos.Library

def Chain (next : Nat → Nat) : Nat → List Nat → Prop
  | head, [] => head = 0
  | head, item :: items => head = item ∧ item ≠ 0 ∧ Chain next (next item) items

instance decidableChain (next : Nat → Nat) :
    ∀ (head : Nat) (items : List Nat), Decidable (Chain next head items)
  | head, [] => inferInstanceAs (Decidable (head = 0))
  | head, item :: items =>
    have := decidableChain next (next item) items
    inferInstanceAs (Decidable (head = item ∧ item ≠ 0 ∧ Chain next (next item) items))

namespace Chain

variable {next newNext : Nat → Nat} {head : Nat} {items front back : List Nat}

theorem congr (chain : Chain next head items) (same : ∀ item ∈ items, newNext item = next item) :
    Chain newNext head items := by
  induction items generalizing head with
  | nil => exact chain
  | cons item items ih =>
    obtain ⟨here, nonzero, rest⟩ := chain
    refine ⟨here, nonzero, ?_⟩
    rw [same item List.mem_cons_self]
    exact ih rest (fun other member => same other (List.mem_cons_of_mem _ member))

theorem cons (chain : Chain next head items) {item : Nat} (nonzero : item ≠ 0)
    (link : newNext item = head) (same : ∀ other ∈ items, newNext other = next other) :
    Chain newNext item (item :: items) := by
  refine ⟨rfl, nonzero, ?_⟩
  rw [link]
  exact chain.congr same

end Chain

/-- Following `next` from `head` visits the items; where it leads from the last of
them is left open. -/
def Trail (next : Nat → Nat) : Nat → List Nat → Prop
  | _, [] => True
  | head, item :: items => head = item ∧ Trail next (next item) items

theorem Trail.congr {next newNext : Nat → Nat} {head : Nat} {items : List Nat}
    (trail : Trail next head items) (same : ∀ item ∈ items, newNext item = next item) :
    Trail newNext head items := by
  induction items generalizing head with
  | nil => trivial
  | cons item items ih =>
    constructor
    · exact trail.1
    · rw [same item List.mem_cons_self]
      exact ih trail.2 (fun other member => same other (List.mem_cons_of_mem _ member))

theorem Trail.cons {next newNext : Nat → Nat} {head : Nat} {items : List Nat}
    (trail : Trail next head items) {item : Nat} (link : newNext item = head)
    (same : ∀ other ∈ items, newNext other = next other) : Trail newNext item (item :: items) := by
  constructor
  · rfl
  · rw [link]
    exact trail.congr same

/-- A trail whose last item leads to zero is a chain. -/
theorem Trail.chain {next : Nat → Nat} {head : Nat} {items : List Nat}
    (trail : Trail next head items) (some : items ≠ []) (nonzero : ∀ item ∈ items, item ≠ 0)
    (ends : ∀ last ∈ items.getLast?, next last = 0) : Chain next head items := by
  induction items generalizing head with
  | nil => exact absurd rfl some
  | cons item items ih =>
    refine ⟨trail.1, nonzero item List.mem_cons_self, ?_⟩
    cases items with
    | nil => exact ends item rfl
    | cons second rest =>
      exact ih trail.2 (List.cons_ne_nil _ _)
        (fun other member => nonzero other (List.mem_cons_of_mem _ member))
        (fun last isLast => ends last (by rw [List.getLast?_cons_cons]; exact isLast))

/-- Following `next` from `head` visits the items and then arrives at `last`. -/
def Leads (next : Nat → Nat) : Nat → List Nat → Nat → Prop
  | head, [], last => head = last
  | head, item :: items, last => head = item ∧ Leads next (next item) items last

theorem Leads.congr {next newNext : Nat → Nat} {head last : Nat} {items : List Nat}
    (leads : Leads next head items last) (same : ∀ item ∈ items, newNext item = next item) :
    Leads newNext head items last := by
  induction items generalizing head with
  | nil => exact leads
  | cons item items ih =>
    constructor
    · exact leads.1
    · rw [same item List.mem_cons_self]
      exact ih leads.2 (fun other member => same other (List.mem_cons_of_mem _ member))

section Finite

variable {Link : Type} {bound : Nat} {code : Link → Fin bound} (distinct : code.Injective)
  (next : Link → Link) (head : Link)

include distinct

/-- Two of the first links are the same. -/
theorem exists_repeated_link : ∃ first second, first < second ∧ second ≤ bound ∧
    next^[first] head = next^[second] head := by
  have more : Fintype.card (Fin bound) < Fintype.card (Fin (bound + 1)) := by
    rw [Fintype.card_fin, Fintype.card_fin]
    exact Nat.lt_succ_self bound
  obtain ⟨first, second, different, same⟩ := Fintype.exists_ne_map_eq_of_card_lt
    (fun step : Fin (bound + 1) => code (next^[step] head)) more
  rcases Nat.lt_or_gt_of_ne (fun equal => different (Fin.ext equal)) with before | behind
  · exact ⟨first, second, before, Nat.le_of_lt_succ second.isLt, distinct same⟩
  · exact ⟨second, first, behind, Nat.le_of_lt_succ first.isLt, distinct same.symm⟩

/-- A link that is reached at all is reached before any link repeats. -/
theorem reached_within_bound {target : Link → Prop} {step : Nat}
    (reached : target (next^[step] head)) :
    ∃ early < bound, target (next^[early] head) := by
  induction step using Nat.strong_induction_on with
  | _ step ih =>
    by_cases early : step < bound
    · exact ⟨step, early, reached⟩
    obtain ⟨first, second, order, within, same⟩ := exists_repeated_link distinct next head
    -- the loop between the two equal links is left out
    have behind : step = (step - second) + second := by omega
    rw [behind, Function.iterate_add_apply, ← same, ← Function.iterate_add_apply] at reached
    exact ih (step - second + first) (by omega) reached

end Finite

end Fesos.Library
