/-
str_cmp and str_ncmp of common/stdstr.c.

A string is the list of the bytes from its pointer on, as signed characters.  There
is nothing to read behind the list.
-/

import Fesos.Machine

set_option autoImplicit false

namespace Fesos

/-- The difference goes through a `uint64_t` before it is returned as an `int`. -/
def throughUInt64 (difference : Int) : Int := toInt32 (difference % 2 ^ 64)

def strCmp : List Int8 → List Int8 → Except Fault Int
  | charA :: strA, charB :: strB =>
    if charA ≠ 0 ∧ charB ≠ 0 then
      if (charA.toInt - charB.toInt) % 2 ^ 64 ≠ 0 then
        .ok (throughUInt64 (charA.toInt - charB.toInt))
      else strCmp strA strB
    else .ok (charA.toInt - charB.toInt)
  | _, _ => .error (.pageFault 0)

def charAt (string : List Int8) : Except Fault Int :=
  match string with
  | [] => .error (.pageFault 0)
  | char :: _ => .ok char.toInt

/-- The lengths are those that are left. -/
def strNcmp : List Int8 → List Int8 → Nat → Nat → Except Fault Int
  | charA :: strA, charB :: strB, lenA + 1, lenB + 1 =>
    if (charA.toInt - charB.toInt) % 2 ^ 64 ≠ 0 then
      .ok (throughUInt64 (charA.toInt - charB.toInt))
    else strNcmp strA strB lenA lenB
  | _, _, _ + 1, _ + 1 => .error (.pageFault 0)
  | strA, strB, lenA, lenB =>
    if lenA = lenB then .ok 0
    else if lenA = 0 then do
      let charB ← charAt strB
      pure (-charB)
    else charAt strA

/-- A string without NUL. -/
abbrev NulFree : Type := { string : List Int8 // 0 ∉ string }

/-- The first difference of two strings that both go on with zeros. -/
def firstDifference : List Int8 → List Int8 → Int
  | [], [] => 0
  | [], charB :: _ => -charB.toInt
  | charA :: _, [] => charA.toInt
  | charA :: strA, charB :: strB =>
    if charA = charB then firstDifference strA strB else charA.toInt - charB.toInt

theorem throughUInt64_eq (charA charB : Int8) :
    throughUInt64 (charA.toInt - charB.toInt) = charA.toInt - charB.toInt := by
  have lowA := charA.le_toInt
  have highA := charA.toInt_lt
  have lowB := charB.le_toInt
  have highB := charB.toInt_lt
  unfold throughUInt64 toInt32 Int.bmod
  dsimp only
  split <;> omega

theorem difference_ne_zero_iff (charA charB : Int8) :
    (charA.toInt - charB.toInt) % 2 ^ 64 ≠ 0 ↔ charA ≠ charB := by
  have lowA := charA.le_toInt
  have highA := charA.toInt_lt
  have lowB := charB.le_toInt
  have highB := charB.toInt_lt
  rw [ne_eq, ne_eq, ← Int8.toInt_inj]
  omega

theorem toInt_eq_zero_iff (char : Int8) : char.toInt = 0 ↔ char = 0 :=
  @Int8.toInt_inj char 0

theorem strCmp_eq (strA strB : List Int8) (freeA : 0 ∉ strA) (freeB : 0 ∉ strB) :
    strCmp (strA ++ [0]) (strB ++ [0]) = .ok (firstDifference strA strB) := by
  induction strA generalizing strB with
  | nil =>
    cases strB with
    | nil => rfl
    | cons charB strB => exact congrArg Except.ok (Int.zero_sub _)
  | cons charA strA ih =>
    obtain ⟨nonzeroA, restA⟩ := not_or.mp (mt List.mem_cons.mpr freeA)
    cases strB with
    | nil =>
      change (if charA ≠ 0 ∧ (0 : Int8) ≠ 0 then _ else _) = _
      rw [if_neg (fun both => both.2 rfl)]
      exact congrArg Except.ok (Int.sub_zero _)
    | cons charB strB =>
      obtain ⟨nonzeroB, restB⟩ := not_or.mp (mt List.mem_cons.mpr freeB)
      simp only [List.cons_append, strCmp, firstDifference, difference_ne_zero_iff,
        throughUInt64_eq, ih strB restA restB]
      grind

theorem strNcmp_eq (strA strB : List Int8) :
    strNcmp strA strB strA.length strB.length = .ok (firstDifference strA strB) := by
  induction strA generalizing strB with
  | nil => cases strB <;> rfl
  | cons charA strA ih =>
    cases strB with
    | nil => rfl
    | cons charB strB =>
      simp only [List.length_cons, strNcmp, firstDifference, difference_ne_zero_iff,
        throughUInt64_eq, ih strB]
      grind

theorem firstDifference_swap (strA strB : List Int8) :
    firstDifference strB strA = -firstDifference strA strB := by
  induction strA generalizing strB with
  | nil =>
    cases strB with
    | nil => rfl
    | cons charB strB => exact (Int.neg_neg _).symm
  | cons charA strA ih =>
    cases strB with
    | nil => rfl
    | cons charB strB =>
      simp only [firstDifference, ih strB, eq_comm (a := charB)]
      grind

theorem firstDifference_eq_zero_iff {strA strB : List Int8} (freeA : 0 ∉ strA)
    (freeB : 0 ∉ strB) : firstDifference strA strB = 0 ↔ strA = strB := by
  induction strA generalizing strB with
  | nil => cases strB <;> grind [firstDifference, Int8.toInt_inj, toInt_eq_zero_iff]
  | cons charA strA ih =>
    cases strB <;> grind [firstDifference, Int8.toInt_inj, toInt_eq_zero_iff]

theorem firstDifference_trans {strA strB strC : List Int8} (freeA : 0 ∉ strA) (freeB : 0 ∉ strB)
    (freeC : 0 ∉ strC) (first : firstDifference strA strB ≤ 0)
    (second : firstDifference strB strC ≤ 0) : firstDifference strA strC ≤ 0 := by
  induction strA generalizing strB strC with
  | nil =>
    cases strB <;> cases strC <;> grind [firstDifference, Int8.toInt_inj, toInt_eq_zero_iff]
  | cons charA strA ih =>
    cases strB <;> cases strC <;> grind [firstDifference, Int8.toInt_inj, toInt_eq_zero_iff]

/-- Both functions realise one total order on the strings without NUL. -/
theorem str_ncmp_orders : ∃ compare : NulFree → NulFree → Int,
    (∀ strA strB : NulFree,
      strNcmp strA.1 strB.1 strA.1.length strB.1.length = .ok (compare strA strB) ∧
      strCmp (strA.1 ++ [0]) (strB.1 ++ [0]) = .ok (compare strA strB)) ∧
    (∀ strA strB, compare strA strB = 0 ↔ strA = strB) ∧
    (∀ strA strB, (compare strB strA).sign = -(compare strA strB).sign) ∧
    (∀ strA strB strC, compare strA strB ≤ 0 → compare strB strC ≤ 0 →
      compare strA strC ≤ 0) := by
  refine ⟨fun strA strB => firstDifference strA.1 strB.1, ?_, ?_, ?_, ?_⟩
  · exact fun strA strB => ⟨strNcmp_eq strA.1 strB.1, strCmp_eq strA.1 strB.1 strA.2 strB.2⟩
  · exact fun strA strB =>
      (firstDifference_eq_zero_iff strA.2 strB.2).trans Subtype.ext_iff.symm
  · intro strA strB
    dsimp only
    rw [firstDifference_swap strA.1 strB.1, Int.sign_neg]
  · exact fun strA strB strC => firstDifference_trans strA.2 strB.2 strC.2

end Fesos
