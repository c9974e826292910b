/-
The page lists of the kernel heap.

Each bucket keeps its pages on two doubly linked lists.  `Threaded` names the
pages of every list; putting a page at the head of a list and taking one out keep
it, and neither touches anything but the links of pages and the heads of lists.
-/

import Fesos.Kmalloc
import Fesos.Library.DoublyLinked

set_option autoImplicit false

namespace Fesos

open Library List

namespace Kmalloc

variable {Regions : Type} {heap : Kmalloc Regions}

/-! ### Reading back a store -/

def next (heap : Kmalloc Regions) (page : Nat) : Nat := (heap.pages page).nextPageDescriptor

def prev (heap : Kmalloc Regions) (page : Nat) : Nat := (heap.pages page).prevPageDescriptor

def head (heap : Kmalloc Regions) (list : PageList) (index : Nat) : Nat :=
  match list with
  | .free => (heap.buckets index).freePageList
  | .full => (heap.buckets index).fullPageList

theorem setPage_pages (heap : Kmalloc Regions) (page other : Nat) (descriptor : PageDescriptor) :
    (heap.setPage page descriptor).pages other =
      if other = page then descriptor else heap.pages other :=
  Function.update_apply heap.pages page descriptor other

theorem setPage_field (field : PageDescriptor → Nat) (heap : Kmalloc Regions) (page other : Nat)
    (descriptor : PageDescriptor) : field ((heap.setPage page descriptor).pages other) =
      if other = page then field descriptor else field (heap.pages other) := by
  rw [setPage_pages, apply_ite field]

theorem setNext_next (heap : Kmalloc Regions) (page value other : Nat) :
    (heap.setNext page value).next other = if other = page then value else heap.next other :=
  setPage_field (·.nextPageDescriptor) heap page other _

theorem setNext_prev (heap : Kmalloc Regions) (page value other : Nat) :
    (heap.setNext page value).prev other = heap.prev other :=
  (setPage_field (·.prevPageDescriptor) heap page other _).trans
    (ite_eq_right_iff.mpr (fun same => same ▸ rfl))

theorem setPrev_prev (heap : Kmalloc Regions) (page value other : Nat) :
    (heap.setPrev page value).prev other = if other = page then value else heap.prev other :=
  setPage_field (·.prevPageDescriptor) heap page other _

theorem setPrev_next (heap : Kmalloc Regions) (page value other : Nat) :
    (heap.setPrev page value).next other = heap.next other :=
  (setPage_field (·.nextPageDescriptor) heap page other _).trans
    (ite_eq_right_iff.mpr (fun same => same ▸ rfl))

theorem setPrevIfAny_prev (heap : Kmalloc Regions) (page value other : Nat) :
    (heap.setPrevIfAny page value).prev other =
      if other = page ∧ page ≠ 0 then value else heap.prev other := by
  unfold setPrevIfAny
  by_cases present : page ≠ 0
  · rw [if_pos present, setPrev_prev]
    by_cases same : other = page
    · rw [if_pos same, if_pos ⟨same, present⟩]
    · rw [if_neg same, if_neg (fun both => same both.1)]
  · rw [if_neg present, if_neg (fun both => present both.2)]

theorem setPrevIfAny_next (heap : Kmalloc Regions) (page value other : Nat) :
    (heap.setPrevIfAny page value).next other = heap.next other := by
  unfold setPrevIfAny
  by_cases present : page ≠ 0
  · rw [if_pos present, setPrev_next]
  · rw [if_neg present]

theorem setPrevIfAny_buckets (heap : Kmalloc Regions) (page value : Nat) :
    (heap.setPrevIfAny page value).buckets = heap.buckets := by
  unfold setPrevIfAny
  by_cases present : page ≠ 0
  · rw [if_pos present]
    rfl
  · rw [if_neg present]

theorem setPrevIfAny_head (heap : Kmalloc Regions) (page value : Nat) :
    (heap.setPrevIfAny page value).head = heap.head := by
  unfold head
  rw [setPrevIfAny_buckets]

theorem setHead_pages (heap : Kmalloc Regions) (list : PageList) (index page : Nat) :
    (heap.setHead list index page).pages = heap.pages := by
  cases list with
  | free | full => rfl

theorem setHead_head (heap : Kmalloc Regions) (list other : PageList) (index otherIndex page : Nat) :
    (heap.setHead list index page).head other otherIndex =
      if other = list ∧ otherIndex = index then page else heap.head other otherIndex := by
  by_cases same : otherIndex = index
  · subst same
    cases list with
    | free | full =>
      cases other with
      | free | full => simp [setHead, setFree, setFull, setBucket, head]
  · rw [if_neg (fun both => same both.2)]
    cases list with
    | free | full =>
      cases other with
      | free | full => simp [setHead, setFree, setFull, setBucket, head, same]

/-! ### What an edit of the lists leaves alone -/

/-- `after` differs from `before` at most in the links of pages and the heads of
lists. -/
structure Relinked (before after : Kmalloc Regions) : Prop where
  pages : ∀ page, after.pages page =
    { before.pages page with
      nextPageDescriptor := after.next page, prevPageDescriptor := after.prev page }
  sizes : ∀ index, (after.buckets index).bucketSize = (before.buckets index).bucketSize
  links : after.links = before.links
  regions : after.regions = before.regions
  held : after.held = before.held

namespace Relinked

variable {before middle after : Kmalloc Regions}

theorem refl (heap : Kmalloc Regions) : Relinked heap heap :=
  ⟨fun _ => rfl, fun _ => rfl, rfl, rfl, rfl⟩

theorem trans (first : Relinked before middle) (second : Relinked middle after) :
    Relinked before after where
  pages := by
    intro page
    rw [second.pages page, first.pages page]
  sizes := fun index => (second.sizes index).trans (first.sizes index)
  links := second.links.trans first.links
  regions := second.regions.trans first.regions
  held := second.held.trans first.held

end Relinked

theorem setPage_relinked {page : Nat} {descriptor : PageDescriptor}
    (same : descriptor = { heap.pages page with
      nextPageDescriptor := descriptor.nextPageDescriptor
      prevPageDescriptor := descriptor.prevPageDescriptor }) :
    Relinked heap (heap.setPage page descriptor) where
  pages := by
    intro other
    unfold next prev
    rw [setPage_pages]
    by_cases here : other = page
    · rw [if_pos here, here]
      exact same
    · rw [if_neg here]
  sizes := fun _ => rfl
  links := rfl
  regions := rfl
  held := rfl

theorem setNext_relinked (heap : Kmalloc Regions) (page value : Nat) :
    Relinked heap (heap.setNext page value) :=
  setPage_relinked rfl

theorem setPrev_relinked (heap : Kmalloc Regions) (page value : Nat) :
    Relinked heap (heap.setPrev page value) :=
  setPage_relinked rfl

theorem setPrevIfAny_relinked (heap : Kmalloc Regions) (page value : Nat) :
    Relinked heap (heap.setPrevIfAny page value) := by
  unfold setPrevIfAny
  by_cases present : page ≠ 0
  · rw [if_pos present]
    exact setPrev_relinked heap page value
  · rw [if_neg present]
    exact Relinked.refl heap

theorem setHead_relinked (heap : Kmalloc Regions) (list : PageList) (index page : Nat) :
    Relinked heap (heap.setHead list index page) := by
  cases list with
  | free | full =>
    refine ⟨fun _ => rfl, ?_, rfl, rfl, rfl⟩
    intro other
    by_cases same : other = index
    · subst same
      simp [setHead, setFree, setFull, setBucket]
    · simp [setHead, setFree, setFull, setBucket, same]

/-! ### The lists -/

/-- The pages of every list.  No page is on two of them. -/
structure Threaded (heap : Kmalloc Regions) (lists : PageList → Nat → List Nat) : Prop where
  linked : ∀ list index,
    DoublyLinked heap.next heap.prev (heap.head list index) (lists list index)
  distinct : ∀ list index, (lists list index).Nodup
  apart : ∀ {list other index otherIndex page}, page ∈ lists list index →
    page ∈ lists other otherIndex → other = list ∧ otherIndex = index

def withList (lists : PageList → Nat → List Nat) (list : PageList) (index : Nat)
    (items : List Nat) : PageList → Nat → List Nat :=
  fun other otherIndex => if other = list ∧ otherIndex = index then items else lists other otherIndex

theorem withList_same (lists : PageList → Nat → List Nat) (list : PageList) (index : Nat)
    (items : List Nat) : withList lists list index items list index = items :=
  if_pos ⟨rfl, rfl⟩

theorem withList_other (lists : PageList → Nat → List Nat) {list other : PageList}
    {index otherIndex : Nat} (items : List Nat) (different : ¬ (other = list ∧ otherIndex = index)) :
    withList lists list index items other otherIndex = lists other otherIndex :=
  if_neg different

theorem nodup_withList {lists : PageList → Nat → List Nat} {list : PageList} {index : Nat}
    {items : List Nat} (distinct : ∀ other otherIndex, (lists other otherIndex).Nodup)
    (nodup : items.Nodup) (other : PageList) (otherIndex : Nat) :
    (withList lists list index items other otherIndex).Nodup := by
  unfold withList
  split
  · exact nodup
  · exact distinct other otherIndex

/-- Lists stay apart when one is given items that were its own or on no list. -/
theorem apart_withList {lists : PageList → Nat → List Nat} {list : PageList} {index : Nat}
    {items : List Nat}
    (apart : ∀ {list other index otherIndex page}, page ∈ lists list index →
      page ∈ lists other otherIndex → other = list ∧ otherIndex = index)
    (own : ∀ page ∈ items, page ∈ lists list index ∨
      ∀ other otherIndex, page ∉ lists other otherIndex)
    {first second : PageList} {firstIndex secondIndex page : Nat}
    (inFirst : page ∈ withList lists list index items first firstIndex)
    (inSecond : page ∈ withList lists list index items second secondIndex) :
    second = first ∧ secondIndex = firstIndex := by
  unfold withList at inFirst inSecond
  by_cases atFirst : first = list ∧ firstIndex = index
  · rw [if_pos atFirst] at inFirst
    by_cases atSecond : second = list ∧ secondIndex = index
    · exact ⟨atSecond.1.trans atFirst.1.symm, atSecond.2.trans atFirst.2.symm⟩
    rw [if_neg atSecond] at inSecond
    rcases own page inFirst with here | nowhere
    · exact absurd (apart here inSecond) atSecond
    · exact absurd inSecond (nowhere second secondIndex)
  · rw [if_neg atFirst] at inFirst
    by_cases atSecond : second = list ∧ secondIndex = index
    · rw [if_pos atSecond] at inSecond
      rcases own page inSecond with here | nowhere
      · exact absurd (apart here inFirst) atFirst
      · exact absurd inFirst (nowhere first firstIndex)
    · rw [if_neg atSecond] at inSecond
      exact apart inFirst inSecond

def pushFront (list : PageList) (index page : Nat) (heap : Kmalloc Regions) : Kmalloc Regions :=
  (((heap.setPrevIfAny (heap.head list index) page).setPrev page 0).setNext page
    (heap.head list index)).setHead list index page

theorem pushFront_relinked (list : PageList) (index page : Nat) (heap : Kmalloc Regions) :
    Relinked heap (heap.pushFront list index page) :=
  (((setPrevIfAny_relinked _ _ _).trans (setPrev_relinked _ _ _)).trans
    (setNext_relinked _ _ _)).trans (setHead_relinked _ _ _ _)

theorem unlink_relinked (list : PageList) (index page : Nat) (heap : Kmalloc Regions) :
    Relinked heap (heap.unlink list index page) := by
  unfold unlink
  dsimp only
  by_cases first : (heap.pages page).prevPageDescriptor = 0
  · rw [if_pos first]
    exact (setHead_relinked _ _ _ _).trans (setPrevIfAny_relinked _ _ _)
  · rw [if_neg first]
    exact (setNext_relinked _ _ _).trans (setPrevIfAny_relinked _ _ _)

section Edits

variable {lists : PageList → Nat → List Nat} {list : PageList} {index page : Nat}

theorem setHead_next (heap : Kmalloc Regions) (list : PageList) (index page other : Nat) :
    (heap.setHead list index page).next other = heap.next other := by
  unfold next
  rw [setHead_pages]

theorem setHead_prev (heap : Kmalloc Regions) (list : PageList) (index page other : Nat) :
    (heap.setHead list index page).prev other = heap.prev other := by
  unfold prev
  rw [setHead_pages]

theorem pushFront_next (heap : Kmalloc Regions) (list : PageList) (index page other : Nat) :
    (heap.pushFront list index page).next other =
      if other = page then heap.head list index else heap.next other := by
  unfold pushFront
  rw [setHead_next, setNext_next, setPrev_next, setPrevIfAny_next]

theorem pushFront_prev (heap : Kmalloc Regions) (list : PageList) (index page other : Nat) :
    (heap.pushFront list index page).prev other =
      if other = page then 0
      else if other = heap.head list index ∧ heap.head list index ≠ 0 then page
      else heap.prev other := by
  unfold pushFront
  rw [setHead_prev, setNext_prev, setPrev_prev, setPrevIfAny_prev]

theorem pushFront_head (heap : Kmalloc Regions) (list other : PageList)
    (index otherIndex page : Nat) :
    (heap.pushFront list index page).head other otherIndex =
      if other = list ∧ otherIndex = index then page else heap.head other otherIndex := by
  unfold pushFront
  rw [setHead_head]
  change (if _ then _ else (heap.setPrevIfAny _ _).head other otherIndex) = _
  rw [setPrevIfAny_head]

theorem Threaded.pushFront (threaded : heap.Threaded lists) (nonzero : page ≠ 0)
    (outside : ∀ other otherIndex, page ∉ lists other otherIndex) :
    (heap.pushFront list index page).Threaded
      (withList lists list index (page :: lists list index)) where
  linked := by
    intro other otherIndex
    have notPage : ∀ {kind kindIndex item}, item ∈ lists kind kindIndex → item ≠ page := by
      intro kind kindIndex item member same
      rw [same] at member
      exact outside kind kindIndex member
    rw [pushFront_head]
    by_cases same : other = list ∧ otherIndex = index
    · rw [if_pos same, same.1, same.2, withList_same]
      apply (threaded.linked list index).push (threaded.distinct list index) nonzero
      · rw [pushFront_next, if_pos rfl]
      · rw [pushFront_prev, if_pos rfl]
      · intro present
        have member := (threaded.linked list index).head_mem present
        rw [pushFront_prev, if_neg (notPage member), if_pos ⟨rfl, present⟩]
      · intro item member
        rw [pushFront_next, if_neg (notPage member)]
      · intro item member notHead
        rw [pushFront_prev, if_neg (notPage member), if_neg (fun both => notHead both.1)]
    · rw [if_neg same, withList_other lists _ same]
      apply (threaded.linked other otherIndex).congr
      · intro item member
        rw [pushFront_next, if_neg (notPage member)]
      · intro item member
        rw [pushFront_prev, if_neg (notPage member), if_neg]
        intro both
        have headMember := (threaded.linked list index).head_mem both.2
        rw [← both.1] at headMember
        exact same (threaded.apart headMember member)
  distinct := nodup_withList threaded.distinct
    (nodup_cons.mpr ⟨outside list index, threaded.distinct list index⟩)
  apart := by
    apply apart_withList threaded.apart
    intro item member
    rcases mem_cons.mp member with isPage | old
    · right
      rw [isPage]
      exact outside
    · left
      exact old

theorem unlink_next (heap : Kmalloc Regions) (list : PageList) (index page other : Nat) :
    (heap.unlink list index page).next other =
      if other = heap.prev page ∧ heap.prev page ≠ 0 then heap.next page else heap.next other := by
  unfold unlink
  dsimp only
  rw [setPrevIfAny_next]
  by_cases first : (heap.pages page).prevPageDescriptor = 0
  · rw [if_pos first, setHead_next, if_neg (fun both => both.2 first)]
  rw [if_neg first, setNext_next]
  by_cases same : other = heap.prev page
  · exact (if_pos same).trans (if_pos ⟨same, first⟩).symm
  · exact (if_neg same).trans (if_neg (fun both => same both.1)).symm

theorem unlink_prev (heap : Kmalloc Regions) (list : PageList) (index page other : Nat) :
    (heap.unlink list index page).prev other =
      if other = heap.next page ∧ heap.next page ≠ 0 then heap.prev page else heap.prev other := by
  unfold unlink
  dsimp only
  rw [setPrevIfAny_prev]
  by_cases first : (heap.pages page).prevPageDescriptor = 0
  · rw [if_pos first, setHead_prev]
    rfl
  · rw [if_neg first, setNext_prev]
    rfl

theorem unlink_head (heap : Kmalloc Regions) (list other : PageList) (index otherIndex page : Nat) :
    (heap.unlink list index page).head other otherIndex =
      if (other = list ∧ otherIndex = index) ∧ heap.prev page = 0 then heap.next page
      else heap.head other otherIndex := by
  unfold unlink
  dsimp only
  rw [setPrevIfAny_head]
  by_cases first : (heap.pages page).prevPageDescriptor = 0
  · rw [if_pos first, setHead_head]
    by_cases same : other = list ∧ otherIndex = index
    · rw [if_pos same, if_pos ⟨same, first⟩]
      rfl
    · rw [if_neg same, if_neg (fun both => same both.1)]
  · rw [if_neg first, if_neg (fun both => first both.2)]
    rfl

theorem Threaded.unlink {front back : List Nat} (threaded : heap.Threaded lists)
    (onList : lists list index = front ++ page :: back) :
    (heap.unlink list index page).Threaded (withList lists list index (front ++ back)) := by
  have whole := threaded.linked list index
  have distinct := threaded.distinct list index
  rw [onList] at whole distinct
  have kept : (front ++ back).Sublist (front ++ page :: back) :=
    List.Sublist.append_left (sublist_cons_self page back) front
  -- the two neighbours, when there are any, are on the same list
  have prevHere : heap.prev page ≠ 0 → heap.prev page ∈ lists list index := fun present =>
    onList ▸ mem_append_left _ (whole.prev_mem present)
  have nextHere : heap.next page ≠ 0 → heap.next page ∈ lists list index := fun present =>
    onList ▸ mem_append_right _ (mem_cons_of_mem _ (whole.next_mem present))
  constructor
  · intro other otherIndex
    rw [unlink_head]
    by_cases same : other = list ∧ otherIndex = index
    · rw [same.1, same.2, withList_same]
      have removed : DoublyLinked (heap.unlink list index page).next
          (heap.unlink list index page).prev
          (if heap.prev page = 0 then heap.next page else heap.head list index)
          (front ++ back) := by
        apply whole.remove distinct
        · intro present
          rw [unlink_next, if_pos ⟨rfl, present⟩]
        · intro item _member notPrev
          rw [unlink_next, if_neg (fun both => notPrev both.1)]
        · intro present
          rw [unlink_prev, if_pos ⟨rfl, present⟩]
        · intro item _member notNext
          rw [unlink_prev, if_neg (fun both => notNext both.1)]
      by_cases first : heap.prev page = 0
      · rw [if_pos first] at removed
        rw [if_pos ⟨⟨rfl, rfl⟩, first⟩]
        exact removed
      · rw [if_neg first] at removed
        rw [if_neg (fun both => first both.2)]
        exact removed
    · rw [if_neg (fun both => same both.1), withList_other lists _ same]
      apply (threaded.linked other otherIndex).congr
      · intro item member
        rw [unlink_next, if_neg]
        intro both
        apply same
        apply threaded.apart (prevHere both.2)
        rw [← both.1]
        exact member
      · intro item member
        rw [unlink_prev, if_neg]
        intro both
        apply same
        apply threaded.apart (nextHere both.2)
        rw [← both.1]
        exact member
  · exact nodup_withList threaded.distinct (distinct.sublist kept)
  · apply apart_withList threaded.apart
    intro item member
    left
    rw [onList]
    exact kept.subset member

/-- The lists after a page was put at the head of one, by their members. -/
theorem Threaded.pushed (threaded : heap.Threaded lists) (list : PageList) (index : Nat)
    (nonzero : page ≠ 0)
    (outside : ∀ other otherIndex, page ∉ lists other otherIndex) :
    ∃ newLists, (heap.pushFront list index page).Threaded newLists ∧
      ∀ other otherIndex item, item ∈ newLists other otherIndex ↔
        if item = page then other = list ∧ otherIndex = index else item ∈ lists other otherIndex := by
  refine ⟨_, threaded.pushFront nonzero outside, ?_⟩
  intro other otherIndex item
  unfold withList
  by_cases target : other = list ∧ otherIndex = index
  · rw [if_pos target, mem_cons, target.1, target.2]
    by_cases isPage : item = page
    · rw [if_pos isPage]
      exact ⟨fun _ => ⟨rfl, rfl⟩, fun _ => Or.inl isPage⟩
    · rw [if_neg isPage]
      exact ⟨fun member => member.resolve_left isPage, fun member => Or.inr member⟩
  · rw [if_neg target]
    by_cases isPage : item = page
    · rw [if_pos isPage, isPage]
      exact ⟨fun member => absurd member (outside other otherIndex), fun facts => absurd facts target⟩
    · rw [if_neg isPage]

/-- The lists after a page was taken out of one, by their members. -/
theorem Threaded.removed (threaded : heap.Threaded lists) (member : page ∈ lists list index) :
    ∃ newLists, (heap.unlink list index page).Threaded newLists ∧
      ∀ other otherIndex item, item ∈ newLists other otherIndex ↔
        item ≠ page ∧ item ∈ lists other otherIndex := by
  obtain ⟨front, back, onList⟩ := append_of_mem member
  have distinct := threaded.distinct list index
  rw [onList] at distinct
  have notBoth := (nodup_cons.mp (nodup_middle.mp distinct)).1
  refine ⟨_, threaded.unlink onList, ?_⟩
  intro other otherIndex item
  unfold withList
  by_cases target : other = list ∧ otherIndex = index
  · rw [if_pos target, target.1, target.2, onList, mem_append, mem_append, mem_cons]
    constructor
    · intro kept
      constructor
      · intro isPage
        rw [isPage] at kept
        exact notBoth (mem_append.mpr kept)
      · exact kept.imp_right Or.inr
    · intro both
      rcases both.2 with inFront | isPage | inBack
      · exact Or.inl inFront
      · exact absurd isPage both.1
      · exact Or.inr inBack
  · rw [if_neg target]
    constructor
    · intro kept
      constructor
      · intro isPage
        rw [isPage] at kept
        exact target (threaded.apart member kept)
      · exact kept
    · intro both
      exact both.2

/-- The lists after a page was moved from one to another. -/
theorem Threaded.moved (threaded : heap.Threaded lists) (target : PageList) (nonzero : page ≠ 0)
    (member : page ∈ lists list index) :
    ∃ newLists, ((heap.unlink list index page).pushFront target index page).Threaded newLists ∧
      ∀ other otherIndex item, item ∈ newLists other otherIndex ↔
        if item = page then other = target ∧ otherIndex = index
        else item ∈ lists other otherIndex := by
  obtain ⟨between, unlinked, without⟩ := threaded.removed member
  have outside : ∀ other otherIndex, page ∉ between other otherIndex := by
    intro other otherIndex inside
    exact ((without other otherIndex page).mp inside).1 rfl
  obtain ⟨newLists, linked, members⟩ := unlinked.pushed target index nonzero outside
  refine ⟨newLists, linked, ?_⟩
  intro other otherIndex item
  rw [members]
  by_cases isPage : item = page
  · rw [if_pos isPage, if_pos isPage]
  · rw [if_neg isPage, if_neg isPage, without]
    exact ⟨fun both => both.2, fun inside => ⟨isPage, inside⟩⟩

end Edits

end Kmalloc

end Fesos
