/-
Binary trees under rotation, with contexts and search.

A context lists the frames from a position up to the root, the nearest frame
first; a frame keeps the node above the position and the subtree on its other
side.  The in-order sequence of a tree is what rotations keep and what search
and neighbourhood are stated over.
-/

import Mathlib.Data.Tree.Basic
import Mathlib.Data.List.Nodup
import Mathlib.Tactic

set_option autoImplicit false

namespace BinaryTree

open List

universe u

variable {α : Type u}

def inorder : BinaryTree α → List α
  | nil => []
  | node a left right => inorder left ++ a :: inorder right

@[simp] theorem inorder_nil : (nil : BinaryTree α).inorder = [] := rfl

@[simp] theorem inorder_node (a : α) (left right : BinaryTree α) :
    (node a left right).inorder = left.inorder ++ a :: right.inorder := rfl

theorem length_inorder (tree : BinaryTree α) : tree.inorder.length = tree.numNodes := by
  induction tree with
  | nil => rfl
  | node a left right leftLength rightLength =>
    simp only [inorder_node, length_append, length_cons, numNodes, leftLength,
      rightLength]
    omega

theorem height_le_length (tree : BinaryTree α) : tree.height ≤ tree.inorder.length := by
  rw [length_inorder]
  exact height_le_numNodes tree

variable {tree : BinaryTree α}

theorem height_eq_zero : tree.height = 0 ↔ tree = nil := by
  cases tree with
  | nil => simp
  | node a left right => simp

/-! ### Rotations -/

def balanceFactor : BinaryTree α → Int
  | nil => 0
  | node _ left right => (left.height : Int) - right.height

def rotateRight : BinaryTree α → BinaryTree α
  | node a (node b outer inner) right => node b outer (node a inner right)
  | tree => tree

def rotateLeft : BinaryTree α → BinaryTree α
  | node a left (node b inner outer) => node b (node a left inner) outer
  | tree => tree

@[simp] theorem rotateRight_inorder (tree : BinaryTree α) :
    tree.rotateRight.inorder = tree.inorder := by
  unfold rotateRight
  split <;> simp

@[simp] theorem rotateLeft_inorder (tree : BinaryTree α) :
    tree.rotateLeft.inorder = tree.inorder := by
  unfold rotateLeft
  split <;> simp

/-! ### Balance -/

def Balanced : BinaryTree α → Prop
  | nil => True
  | node _ left right =>
    left.height ≤ right.height + 1 ∧ right.height ≤ left.height + 1 ∧ Balanced left ∧
      Balanced right

instance decidableBalanced : ∀ tree : BinaryTree α, Decidable tree.Balanced
  | nil => isTrue trivial
  | node _ left right =>
    have := decidableBalanced left
    have := decidableBalanced right
    inferInstanceAs (Decidable (left.height ≤ right.height + 1 ∧ right.height ≤ left.height + 1 ∧
      Balanced left ∧ Balanced right))

/-- A balanced tree is flat. -/
theorem Balanced.two_pow_le (balanced : tree.Balanced) :
    2 ^ (tree.height / 2) ≤ tree.inorder.length + 1 := by
  induction tree with
  | nil => simp [height]
  | node a left right leftIh rightIh =>
    obtain ⟨leftClose, rightClose, leftBalanced, rightBalanced⟩ := balanced
    have leftMany := leftIh leftBalanced
    have rightMany := rightIh rightBalanced
    rw [inorder_node, length_append, length_cons]
    by_cases low : max left.height right.height = 0
    · rw [height, low]
      exact Nat.le_add_left 1 _
    -- both subtrees reach at least two levels below the top
    have halved : (node a left right).height / 2 = (max left.height right.height - 1) / 2 + 1 := by
      rw [height]
      omega
    have leftPow : 2 ^ ((max left.height right.height - 1) / 2) ≤ 2 ^ (left.height / 2) :=
      Nat.pow_le_pow_right (by decide) (by omega)
    have rightPow : 2 ^ ((max left.height right.height - 1) / 2) ≤ 2 ^ (right.height / 2) :=
      Nat.pow_le_pow_right (by decide) (by omega)
    rw [halved, Nat.pow_succ]
    omega

/-! ### Contexts -/

/-- One step above a position: `left` when the position is the left child. -/
inductive Frame (α : Type u) where
  | left (above : α) (sibling : BinaryTree α)
  | right (above : α) (sibling : BinaryTree α)
  deriving DecidableEq, Repr

namespace Frame

def above : Frame α → α
  | left a _ => a
  | right a _ => a

def sibling : Frame α → BinaryTree α
  | left _ tree => tree
  | right _ tree => tree

def fill : Frame α → BinaryTree α → BinaryTree α
  | left a other, tree => node a tree other
  | right a other, tree => node a other tree

end Frame

def plug : List (Frame α) → BinaryTree α → BinaryTree α
  | [], tree => tree
  | frame :: frames, tree => plug frames (frame.fill tree)

def before : List (Frame α) → List α
  | [] => []
  | .left _ _ :: frames => before frames
  | .right a other :: frames => before frames ++ (other.inorder ++ [a])

def after : List (Frame α) → List α
  | [] => []
  | .left a other :: frames => a :: other.inorder ++ after frames
  | .right _ _ :: frames => after frames

@[simp] theorem plug_nil (tree : BinaryTree α) : plug [] tree = tree := rfl

@[simp] theorem plug_cons (frame : Frame α) (frames : List (Frame α)) (tree : BinaryTree α) :
    plug (frame :: frames) tree = plug frames (frame.fill tree) := rfl

theorem plug_append (inner outer : List (Frame α)) (tree : BinaryTree α) :
    plug (inner ++ outer) tree = plug outer (plug inner tree) := by
  induction inner generalizing tree with
  | nil => rfl
  | cons frame frames ih => exact ih (frame.fill tree)

theorem plug_inorder (frames : List (Frame α)) (tree : BinaryTree α) :
    (plug frames tree).inorder = before frames ++ tree.inorder ++ after frames := by
  induction frames generalizing tree with
  | nil => simp [before, after]
  | cons frame frames ih =>
    rw [plug_cons, ih]
    cases frame with
    | left a other => simp [Frame.fill, before, after]
    | right a other => simp [Frame.fill, before, after]

theorem before_append (inner outer : List (Frame α)) :
    before (inner ++ outer) = before outer ++ before inner := by
  induction inner with
  | nil => simp [before]
  | cons frame inner ih =>
    cases frame with
    | left a other => exact ih
    | right a other => simp [before, ih]

theorem after_append (inner outer : List (Frame α)) :
    after (inner ++ outer) = after inner ++ after outer := by
  induction inner with
  | nil => simp [after]
  | cons frame inner ih =>
    cases frame with
    | left a other => simp [after, ih]
    | right a other => exact ih

def surroundings (frames : List (Frame α)) : List α :=
  frames.flatMap (fun frame => frame.above :: frame.sibling.inorder)

theorem plug_perm (frames : List (Frame α)) (tree : BinaryTree α) :
    (plug frames tree).inorder.Perm (tree.inorder ++ surroundings frames) := by
  induction frames generalizing tree with
  | nil => simp [surroundings]
  | cons frame frames ih =>
    refine (ih (frame.fill tree)).trans ?_
    have around : surroundings (frame :: frames) =
        frame.above :: frame.sibling.inorder ++ surroundings frames := rfl
    rw [around, ← append_assoc]
    refine List.Perm.append_right _ ?_
    cases frame with
    | left a other => exact List.Perm.refl _
    | right a other =>
      exact perm_middle.trans ((perm_append_comm.cons a).trans perm_middle.symm)

variable {frames : List (Frame α)}

/-- In a context without repetitions, no value above a position lies beside the way. -/
theorem above_not_sibling (nodup : (surroundings frames).Nodup)
    {upper frame : Frame α} (upperIn : upper ∈ frames) (frameIn : frame ∈ frames) :
    upper.above ∉ frame.sibling.inorder := by
  induction frames with
  | nil => cases upperIn
  | cons first frames ih =>
    have around : surroundings (first :: frames) =
        first.above :: (first.sibling.inorder ++ surroundings frames) := rfl
    rw [around, nodup_cons, nodup_append] at nodup
    obtain ⟨firstApart, _, restNodup, siblingApart⟩ := nodup
    have inside : ∀ other ∈ frames, other.above ∈ surroundings frames ∧
        ∀ a ∈ other.sibling.inorder, a ∈ surroundings frames := by
      intro other member
      refine ⟨mem_flatMap.mpr ⟨other, member, mem_cons_self⟩, ?_⟩
      exact fun a inSibling => mem_flatMap.mpr
        ⟨other, member, mem_cons_of_mem _ inSibling⟩
    intro beside
    rcases mem_cons.mp upperIn with upperFirst | upperLater
    · rcases mem_cons.mp frameIn with frameFirst | frameLater
      · rw [upperFirst, frameFirst] at beside
        exact firstApart (mem_append_left _ beside)
      · rw [upperFirst] at beside
        exact firstApart (mem_append_right _ ((inside frame frameLater).2 _ beside))
    · rcases mem_cons.mp frameIn with frameFirst | frameLater
      · rw [frameFirst] at beside
        exact siblingApart _ beside _ (inside upper upperLater).1 rfl
      · exact ih restNodup upperLater frameLater beside

/-! ### Mirror images -/

def mirror : BinaryTree α → BinaryTree α
  | nil => nil
  | node a left right => node a (mirror right) (mirror left)

@[simp] theorem mirror_inorder (tree : BinaryTree α) :
    tree.mirror.inorder = tree.inorder.reverse := by
  induction tree with
  | nil => rfl
  | node a left right leftIh rightIh => simp [mirror, leftIh, rightIh]

@[simp] theorem mirror_height (tree : BinaryTree α) : tree.mirror.height = tree.height := by
  induction tree with
  | nil => rfl
  | node a left right leftIh rightIh => simp [mirror, leftIh, rightIh, max_comm]

theorem height_le_plug (frames : List (Frame α)) (tree : BinaryTree α) :
    frames.length + tree.height ≤ (plug frames tree).height := by
  induction frames generalizing tree with
  | nil => simp
  | cons frame frames ih =>
    have bound := ih (frame.fill tree)
    have grows : tree.height + 1 ≤ (frame.fill tree).height := by
      cases frame with
      | left a other => simp [Frame.fill]
      | right a other => simp [Frame.fill]
    rw [length_cons, plug_cons]
    omega

/-- The first occurrence of a value in a tree, as a context and two subtrees. -/
def focus [DecidableEq α] (a : α) :
    BinaryTree α → Option (List (Frame α) × BinaryTree α × BinaryTree α)
  | nil => none
  | node b left right =>
    if b = a then some ([], left, right)
    else
      match focus a left with
      | some (frames, below) => some (frames ++ [.left b right], below)
      | none =>
        match focus a right with
        | some (frames, below) => some (frames ++ [.right b left], below)
        | none => none

variable {a : α}

theorem focus_plug [DecidableEq α] {left right : BinaryTree α} (found : focus a tree = some (frames, left, right)) :
    tree = plug frames (node a left right) := by
  induction tree generalizing frames with
  | nil => cases found
  | node b treeLeft treeRight leftIh rightIh =>
    unfold focus at found
    by_cases here : b = a
    · rw [if_pos here] at found
      cases found
      rw [here, plug_nil]
    rw [if_neg here] at found
    cases inLeft : focus a treeLeft with
    | some result =>
      obtain ⟨inner, below⟩ := result
      rw [inLeft] at found
      cases found
      rw [plug_append, ← leftIh inLeft]
      rfl
    | none =>
      rw [inLeft] at found
      cases inRight : focus a treeRight with
      | some result =>
        obtain ⟨inner, below⟩ := result
        simp only [inRight] at found
        cases found
        rw [plug_append, ← rightIh inRight]
        rfl
      | none =>
        simp only [inRight] at found
        cases found

theorem focus_of_mem [DecidableEq α] (member : a ∈ tree.inorder) :
    ∃ frames left right, focus a tree = some (frames, left, right) := by
  induction tree with
  | nil => cases member
  | node b treeLeft treeRight leftIh rightIh =>
    unfold focus
    by_cases here : b = a
    · exact ⟨[], treeLeft, treeRight, by rw [if_pos here]⟩
    rw [if_neg here]
    cases inLeft : focus a treeLeft with
    | some result => exact ⟨_, result.2.1, result.2.2, rfl⟩
    | none =>
      have inRight : a ∈ treeRight.inorder := by
        rw [inorder_node, mem_append, mem_cons] at member
        rcases member with left | same | right
        · obtain ⟨frames, below, other, found⟩ := leftIh left
          rw [inLeft] at found
          cases found
        · exact absurd same.symm here
        · exact right
      obtain ⟨frames, below, other, found⟩ := rightIh inRight
      rw [found]
      exact ⟨_, below, other, rfl⟩

theorem focus_eq_none [DecidableEq α] (absent : a ∉ tree.inorder) :
    focus a tree = none := by
  cases found : focus a tree with
  | none => rfl
  | some parts =>
    refine absurd ?_ absent
    rw [focus_plug found, plug_inorder]
    simp

/-- The context found inside a larger tree is the inner context with the outer
one behind it. -/
theorem focus_in_plug [DecidableEq α] (frames : List (Frame α))
    (outside : a ∉ surroundings frames) :
    focus a (plug frames tree) =
      (focus a tree).map (fun parts => (parts.1 ++ frames, parts.2)) := by
  induction frames generalizing tree with
  | nil => simp
  | cons frame frames ih =>
    have around : surroundings (frame :: frames) =
        frame.above :: (frame.sibling.inorder ++ surroundings frames) := rfl
    rw [around, mem_cons, mem_append, not_or, not_or] at outside
    obtain ⟨notAbove, notSibling, notRest⟩ := outside
    have siblingNone := focus_eq_none notSibling
    rw [plug_cons, ih notRest]
    cases frame with
    | left b other =>
      have notHere : ¬ b = a := fun same => notAbove same.symm
      simp only [Frame.sibling] at siblingNone
      rw [Frame.fill, focus, if_neg notHere]
      cases focus a tree with
      | none => simp [siblingNone]
      | some parts => simp
    | right b other =>
      have notHere : ¬ b = a := fun same => notAbove same.symm
      simp only [Frame.sibling] at siblingNone
      rw [Frame.fill, focus, if_neg notHere, siblingNone]
      cases focus a tree with
      | none => rfl
      | some parts => simp

theorem focus_of_plug [DecidableEq α] {left right : BinaryTree α} (nodup : tree.inorder.Nodup)
    (is : tree = plug frames (node a left right)) : focus a tree = some (frames, left, right) := by
  rw [is] at nodup ⊢
  have separate := (plug_perm frames _).nodup_iff.mp nodup
  rw [focus_in_plug frames (fun member =>
    (nodup_append.mp separate).2.2 a (by simp) a member rfl), focus, if_pos rfl]
  simp

/-- In a tree without repetitions, the context of a value is determined by its
place in the in-order sequence. -/
theorem focus_at [DecidableEq α] {front back : List α}
    (nodup : tree.inorder.Nodup) (order : tree.inorder = front ++ a :: back) :
    ∃ frames left right, focus a tree = some (frames, left, right) ∧
      front = before frames ++ left.inorder ∧ back = right.inorder ++ after frames := by
  obtain ⟨frames, left, right, found⟩ := focus_of_mem (a := a) (by rw [order]; simp)
  have whole := focus_plug found
  have other : tree.inorder =
      (before frames ++ left.inorder) ++ a :: (right.inorder ++ after frames) := by
    rw [whole, plug_inorder, inorder_node]
    simp
  rw [order] at nodup
  have apart := nodup_cons.mp (nodup_middle.mp nodup)
  have same := (append_cons_inj_of_notMem
    (fun member => apart.1 (mem_append_left _ member))
    (fun member => apart.1 (mem_append_right _ member))).mp (order.symm.trans other)
  exact ⟨frames, left, right, found, same.1, same.2.2⟩

/-! ### Search -/

/-- Descent by the sign of a comparison: left on positive values. -/
def search (compare : α → Int) : BinaryTree α → Option α
  | nil => none
  | node a left right =>
    if compare a = 0 then some a
    else if 0 < compare a then search compare left
    else search compare right

theorem search_congr {compare other : α → Int}
    (same : ∀ a ∈ tree.inorder, other a = compare a) : tree.search other = tree.search compare := by
  induction tree with
  | nil => rfl
  | node a left right leftIh rightIh =>
    rw [search, search, same a (by simp), leftIh (fun b member => same b (by simp [member])),
      rightIh (fun b member => same b (by simp [member]))]

theorem search_some {compare : α → Int}
    (found : tree.search compare = some a) : a ∈ tree.inorder ∧ compare a = 0 := by
  induction tree with
  | nil => cases found
  | node b left right leftIh rightIh =>
    unfold search at found
    rw [inorder_node, mem_append, mem_cons]
    split_ifs at found with hit positive
    · cases found
      exact ⟨Or.inr (Or.inl rfl), hit⟩
    · exact ⟨Or.inl (leftIh found).1, (leftIh found).2⟩
    · exact ⟨Or.inr (Or.inr (rightIh found).1), (rightIh found).2⟩

theorem search_found (compare : α → Int) (hit : compare a = 0) (tree : BinaryTree α)
    {front back : List α} (order : tree.inorder = front ++ a :: back)
    (low : ∀ b ∈ front, compare b < 0) (high : ∀ b ∈ back, 0 < compare b) :
    tree.search compare = some a := by
  induction tree generalizing front back with
  | nil => simp at order
  | node b left right leftIh rightIh =>
    rw [inorder_node] at order
    unfold search
    rcases append_eq_append_iff.mp order with ⟨middle, frontEq, rest⟩ | ⟨middle, leftEq, rest⟩
    · cases middle with
      | nil =>
        simp only [nil_append, List.cons.injEq] at rest
        rw [rest.1, if_pos hit]
      | cons c middle =>
        simp only [cons_append, List.cons.injEq] at rest
        have negative : compare b < 0 := low b (by rw [frontEq, rest.1]; simp)
        rw [if_neg (by omega), if_neg (by omega)]
        exact rightIh rest.2 (fun d member => low d (by rw [frontEq]; simp [member])) high
    · cases middle with
      | nil =>
        simp only [nil_append, List.cons.injEq] at rest
        rw [← rest.1, if_pos hit]
      | cons c middle =>
        simp only [cons_append, List.cons.injEq] at rest
        have positive : 0 < compare b := high b (by rw [rest.2]; simp)
        rw [if_neg (by omega), if_pos positive]
        have leftOrder : left.inorder = front ++ a :: middle := by rw [leftEq, rest.1]
        exact leftIh leftOrder low (fun d member => high d (by rw [rest.2]; simp [member]))

/-- Every comparison above the item points towards it. -/
def Reached (compare : α → Int) (a : α) : BinaryTree α → Prop
  | nil => False
  | node b left right =>
    a = b ∨ 0 < compare b ∧ Reached compare a left ∨ compare b < 0 ∧ Reached compare a right

instance decidableReached [DecidableEq α] (compare : α → Int) (a : α) :
    ∀ tree, Decidable (Reached compare a tree)
  | nil => isFalse not_false
  | node b left right =>
    have := decidableReached compare a left
    have := decidableReached compare a right
    inferInstanceAs (Decidable
      (a = b ∨ 0 < compare b ∧ Reached compare a left ∨ compare b < 0 ∧ Reached compare a right))

/-- A search ends at the only item it reaches that compares equal. -/
theorem search_eq_some_iff {compare : α → Int} :
    tree.search compare = some a ↔ tree.Reached compare a ∧ compare a = 0 := by
  induction tree with
  | nil => simp [search, Reached]
  | node b left right leftIh rightIh =>
    rw [search, Reached]
    by_cases hit : compare b = 0
    · rw [if_pos hit, Option.some_inj]
      constructor
      · rintro rfl
        exact ⟨Or.inl rfl, hit⟩
      · rintro ⟨here | ⟨positive, _⟩ | ⟨negative, _⟩, _⟩
        · exact here.symm
        · omega
        · omega
    · rw [if_neg hit]
      by_cases positive : 0 < compare b
      · rw [if_pos positive, leftIh]
        constructor
        · rintro ⟨inLeft, zero⟩
          exact ⟨Or.inr (Or.inl ⟨positive, inLeft⟩), zero⟩
        · rintro ⟨here | ⟨_, inLeft⟩ | ⟨negative, _⟩, zero⟩
          · rw [here] at zero
            exact absurd zero hit
          · exact ⟨inLeft, zero⟩
          · omega
      · rw [if_neg positive, rightIh]
        constructor
        · rintro ⟨inRight, zero⟩
          exact ⟨Or.inr (Or.inr ⟨by omega, inRight⟩), zero⟩
        · rintro ⟨here | ⟨isPositive, _⟩ | ⟨_, inRight⟩, zero⟩
          · rw [here] at zero
            exact absurd zero hit
          · exact absurd isPositive positive
          · exact ⟨inRight, zero⟩

def descent (goesLeft : α → Bool) : BinaryTree α → List α
  | nil => []
  | node a left right =>
    a :: if goesLeft a then descent goesLeft left else descent goesLeft right

theorem descent_subset {goesLeft : α → Bool}
    (onWay : a ∈ tree.descent goesLeft) : a ∈ tree.inorder := by
  induction tree with
  | nil => cases onWay
  | node here left right leftIh rightIh =>
    rw [inorder_node, mem_append, mem_cons]
    rcases mem_cons.mp onWay with isHere | below
    · exact Or.inr (Or.inl isHere)
    · split at below
      · exact Or.inl (leftIh below)
      · exact Or.inr (Or.inr (rightIh below))

end BinaryTree
