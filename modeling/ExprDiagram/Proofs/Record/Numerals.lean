/-
This file shows that every number that is written into a record is a number by the grammar of JSON.
What the grammar refuses are zeros in front of other digits, a point without digits on both sides,
and an exponent without digits. The digits of a count begin with a zero only if the count is zero,
and the shortest decimal of a number that is not zero has digits other than zero.
-/

import ExprDiagram.Proofs.Record.Reader
import Mathlib

namespace ExprDiagram

namespace JsonToken

/-! ### Digits -/

theorem all_isDigit_toDigits (count : Nat) : ∀ digit ∈ Nat.toDigits 10 count, digit.isDigit :=
  fun _ => Nat.isDigit_of_mem_toDigits (by decide) (le_refl 10)

theorem all_isDigit_zeros (count : Nat) : ∀ digit ∈ List.replicate count '0', digit.isDigit := by
  intro digit member
  rw [List.eq_of_mem_replicate member]
  rfl

/-- Only the digits of zero begin with a zero. -/
theorem exists_toDigits (count : Nat) :
    ∃ first rest, Nat.toDigits 10 count = first :: rest ∧ (first = '0' → count = 0) := by
  induction count using Nat.strong_induction_on with
  | _ count inductionHypothesis =>
    by_cases small : count < 10
    · exact ⟨_, [], Nat.toDigits_of_lt_base small, Nat.digitChar_eq_zero.mp⟩
    · obtain ⟨first, rest, same, zero⟩ := inductionHypothesis (count / 10) (by omega)
      refine ⟨first, rest ++ [(count % 10).digitChar], ?_, fun isZero => ?_⟩
      · rw [Nat.toDigits_of_base_le (by decide) (by omega), same, List.cons_append]
      · have none := zero isZero
        omega

variable {first : Char} {whole digits rest text exponent : List Char}

theorem isWhole_cons (notZero : first ≠ '0') (digits : ∀ digit ∈ first :: rest, digit.isDigit) :
    isWhole (first :: rest) := by
  unfold isWhole
  split
  · rename_i empty
    cases empty
  · rename_i isZero
    exact absurd (List.cons.inj isZero).1 notZero
  · exact List.all_eq_true.mpr digits

/-- The digits of a count are such as may stand in front of a point. -/
theorem isWhole_toDigits (count : Nat) : isWhole (Nat.toDigits 10 count) := by
  by_cases zero : count = 0
  · rw [zero, Nat.toDigits_zero]
    rfl
  · obtain ⟨first, rest, same, isZero⟩ := exists_toDigits count
    have digits := all_isDigit_toDigits count
    rw [same] at digits ⊢
    exact isWhole_cons (fun here => zero (isZero here)) digits

theorem isDigits_toDigits (count : Nat) : isDigits (Nat.toDigits 10 count) := by
  rw [isDigits, Bool.and_eq_true, Bool.not_eq_true', List.isEmpty_eq_false_iff]
  exact ⟨Nat.toDigits_ne_nil, List.all_eq_true.mpr (all_isDigit_toDigits count)⟩

/-! ### Putting numbers together -/

theorem isUnsigned_append (isWhole : isWhole whole) (digits : ∀ digit ∈ whole, digit.isDigit)
    (ended : rest.takeWhile Char.isDigit = []) (isFraction : isFraction rest) :
    isUnsigned (whole ++ rest) := by
  have others : rest.dropWhile Char.isDigit = rest := by
    have split := List.takeWhile_append_dropWhile (p := Char.isDigit) (l := rest)
    rwa [ended, List.nil_append] at split
  rw [isUnsigned, List.takeWhile_append_of_pos digits, List.dropWhile_append_of_pos digits, ended,
    others, List.append_nil, isWhole, isFraction]
  rfl

theorem isFraction_point (nonempty : digits ≠ []) (all : ∀ digit ∈ digits, digit.isDigit)
    (ended : exponent.takeWhile Char.isDigit = []) (isExponent : isExponent exponent) :
    isFraction ('.' :: (digits ++ exponent)) := by
  have others : exponent.dropWhile Char.isDigit = exponent := by
    have split := List.takeWhile_append_dropWhile (p := Char.isDigit) (l := exponent)
    rwa [ended, List.nil_append] at split
  rw [isFraction, List.takeWhile_append_of_pos all, List.dropWhile_append_of_pos all, ended, others,
    List.append_nil, isExponent, List.isEmpty_eq_false_iff.mpr nonempty]
  rfl

/-- Digits on both sides of a point, and what may follow them. -/
theorem isUnsigned_point (isWhole : isWhole whole) (allWhole : ∀ digit ∈ whole, digit.isDigit)
    (nonempty : digits ≠ []) (all : ∀ digit ∈ digits, digit.isDigit)
    (ended : exponent.takeWhile Char.isDigit = []) (isExponent : isExponent exponent) :
    isUnsigned (whole ++ '.' :: (digits ++ exponent)) :=
  isUnsigned_append isWhole allWhole rfl (isFraction_point nonempty all ended isExponent)

theorem isExponent_signed (negative : Bool) (power : Nat) :
    isExponent ('e' :: (if negative then '-' else '+') :: Nat.toDigits 10 power) := by
  cases negative <;> exact isDigits_toDigits power

theorem isNumeral_of_isUnsigned (isUnsigned : isUnsigned text) : isNumeral text := by
  unfold isNumeral
  split
  · cases isUnsigned
  · exact isUnsigned

/-! ### The characters of numbers -/

/-- A character that numbers are made of. -/
def IsNumberChar (character : Char) : Prop :=
  character.isDigit ∨ character ∈ ['-', '+', '.', 'e', 'E']

theorem isNumberChar_of_isDigits (isDigits : isDigits digits) :
    ∀ character ∈ digits, IsNumberChar character := by
  intro character member
  rw [JsonToken.isDigits, Bool.and_eq_true] at isDigits
  exact .inl (List.all_eq_true.mp isDigits.2 character member)

theorem isNumberChar_of_isExponent (isExponent : isExponent text) :
    ∀ character ∈ text, IsNumberChar character := by
  have letter : ∀ character : Char, (character == 'e' || character == 'E') →
      IsNumberChar character := by
    intro character either
    rcases (Bool.or_eq_true _ _).mp either with small | capital
    · rw [beq_iff_eq.mp small]
      exact .inr (by decide)
    · rw [beq_iff_eq.mp capital]
      exact .inr (by decide)
  unfold JsonToken.isExponent at isExponent
  split at isExponent
  · exact nofun
  · obtain ⟨isLetter, digits⟩ := Bool.and_eq_true_iff.mp isExponent
    exact List.forall_mem_cons.mpr ⟨letter _ isLetter,
      List.forall_mem_cons.mpr ⟨.inr (by decide), isNumberChar_of_isDigits digits⟩⟩
  · obtain ⟨isLetter, digits⟩ := Bool.and_eq_true_iff.mp isExponent
    exact List.forall_mem_cons.mpr ⟨letter _ isLetter,
      List.forall_mem_cons.mpr ⟨.inr (by decide), isNumberChar_of_isDigits digits⟩⟩
  · obtain ⟨isLetter, digits⟩ := Bool.and_eq_true_iff.mp isExponent
    exact List.forall_mem_cons.mpr ⟨letter _ isLetter, isNumberChar_of_isDigits digits⟩

/-- Digits at the beginning are such characters, so the rest is to be looked at. -/
theorem isNumberChar_of_dropWhile
    (others : ∀ character ∈ text.dropWhile Char.isDigit, IsNumberChar character) :
    ∀ character ∈ text, IsNumberChar character := by
  rw [← List.takeWhile_append_dropWhile (p := Char.isDigit) (l := text)]
  exact List.forall_mem_append.mpr ⟨fun _ member => .inl (List.mem_takeWhile_imp member), others⟩

theorem isNumberChar_of_isFraction (isFraction : isFraction text) :
    ∀ character ∈ text, IsNumberChar character := by
  unfold JsonToken.isFraction at isFraction
  split at isFraction
  · have exponent := (Bool.and_eq_true_iff.mp isFraction).2
    exact List.forall_mem_cons.mpr ⟨.inr (by decide),
      isNumberChar_of_dropWhile (isNumberChar_of_isExponent exponent)⟩
  · exact isNumberChar_of_isExponent isFraction

theorem isNumberChar_of_isUnsigned (isUnsigned : isUnsigned text) :
    ∀ character ∈ text, IsNumberChar character :=
  isNumberChar_of_dropWhile (isNumberChar_of_isFraction (Bool.and_eq_true_iff.mp isUnsigned).2)

theorem isNumberChar_of_isNumeral (isNumeral : isNumeral text) :
    ∀ character ∈ text, IsNumberChar character := by
  unfold JsonToken.isNumeral at isNumeral
  split at isNumeral
  · exact List.forall_mem_cons.mpr ⟨.inr (by decide), isNumberChar_of_isUnsigned isNumeral⟩
  · exact isNumberChar_of_isUnsigned isNumeral

/-! ### Counts -/

theorem isNumeral_repr (count : Nat) : isNumeral count.repr.toList := by
  rw [Nat.toList_repr, ← List.append_nil (Nat.toDigits 10 count)]
  exact isNumeral_of_isUnsigned
    (isUnsigned_append (isWhole_toDigits count) (all_isDigit_toDigits count) rfl rfl)

end JsonToken

/-! ### Decimals -/

namespace Decimal

/-- The decimal is not a zero with an exponent. -/
def Proper (decimal : Decimal) : Prop := decimal.digits = 0 → decimal.exponent = 0

variable {decimal : Decimal} {low high denominator : Nat} {closed : Bool}

theorem Proper.trimmed (proper : decimal.Proper) : decimal.trimmed.Proper := by
  fun_induction Decimal.trimmed decimal with
  | case1 decimal whole inductionHypothesis =>
    refine inductionHypothesis fun zero => ?_
    have some : decimal.digits / 10 = 0 := zero
    omega
  | case2 decimal whole => exact proper

/-- Above zero there is no zero. -/
theorem digits_ne_zero_of_liesBetween (positive : 0 < low)
    (inside : liesBetween low high denominator closed decimal) : decimal.digits ≠ 0 := by
  intro zero
  have some : 0 < low * Nat.pow 10 (-decimal.exponent).toNat :=
    Nat.mul_pos positive (Nat.pow_pos (by decide))
  simp only [liesBetween, zero, Nat.zero_mul] at inside
  cases closed with
  | false => simp at inside
  | true =>
    simp at inside
    omega

theorem digits_ne_zero_of_nextTo {tie : TieRule} {numerator : Nat} {exponent : Int}
    (positive : 0 < low)
    (found : nextTo? tie numerator denominator low high closed exponent = some decimal) :
    decimal.digits ≠ 0 := by
  unfold nextTo? at found
  simp only at found
  split at found
  · rename_i lower upper
    obtain rfl := Option.some.inj found
    split
    · exact digits_ne_zero_of_liesBetween positive lower
    · exact digits_ne_zero_of_liesBetween positive upper
  · rename_i lower _
    obtain rfl := Option.some.inj found
    exact digits_ne_zero_of_liesBetween positive lower
  · rename_i _ upper
    obtain rfl := Option.some.inj found
    exact digits_ne_zero_of_liesBetween positive upper
  · cases found

theorem shortest_proper (tie : TieRule) {significand : Nat} (positive : significand ≠ 0)
    (exponent : Int) : (shortest tie significand exponent).Proper := by
  unfold shortest
  simp only
  refine Proper.trimmed ?_
  cases computed : List.findSome? _ _ with
  | none => exact fun _ => rfl
  | some decimal =>
    obtain ⟨further, _, found⟩ := List.exists_of_findSome?_eq_some computed
    refine fun zero => absurd zero (digits_ne_zero_of_nextTo ?_ found)
    refine Nat.mul_pos ?_ (Nat.pow_pos (by decide))
    split <;> omega

end Decimal

namespace NumeralFormat

open JsonToken

variable {format : NumeralFormat} {decimal : Decimal}

/-- Digits with a point among them are a number. -/
theorem isUnsigned_pointed (keepsPoint : Bool) (proper : decimal.Proper) :
    isUnsigned (pointed keepsPoint (Nat.toDigits 10 decimal.digits)
      (decimal.exponent + (Nat.toDigits 10 decimal.digits).length)) := by
  have allDigits := all_isDigit_toDigits decimal.digits
  obtain ⟨first, rest, same, isZero⟩ := exists_toDigits decimal.digits
  rw [same] at allDigits ⊢
  -- Where digits stand in front of the point, the first of them is a zero only if it is alone.
  have alone : first = '0' → rest = [] ∧ decimal.exponent = 0 := by
    intro here
    have zero := isZero here
    rw [zero, Nat.toDigits_zero] at same
    exact ⟨(List.cons.inj same).2.symm, proper zero⟩
  have length : (first :: rest).length = rest.length + 1 := rfl
  generalize point_eq : decimal.exponent + (first :: rest).length = point
  unfold pointed
  split
  · -- The point stands in front of all digits.
    have all : ∀ digit ∈ List.replicate (-point).toNat '0' ++ first :: rest, digit.isDigit :=
      List.forall_mem_append.mpr ⟨all_isDigit_zeros _, allDigits⟩
    have number : isUnsigned (['0'] ++
        '.' :: ((List.replicate (-point).toNat '0' ++ first :: rest) ++ [])) :=
      isUnsigned_point rfl (by simp) (by simp) all rfl rfl
    rwa [List.append_nil] at number
  · split
    · -- The point stands behind all digits.
      have whole : isWhole (first :: rest ++
          List.replicate (point.toNat - (first :: rest).length) '0') := by
        by_cases zero : first = '0'
        · obtain ⟨rfl, noExponent⟩ := alone zero
          have nothing : point.toNat - [first].length = 0 := by
            rw [length] at point_eq ⊢
            omega
          rw [nothing, zero]
          rfl
        · exact isWhole_cons zero (List.forall_mem_append.mpr ⟨allDigits, all_isDigit_zeros _⟩)
      have all := List.forall_mem_append.mpr ⟨allDigits,
        all_isDigit_zeros (point.toNat - (first :: rest).length)⟩
      cases keepsPoint with
      | false => exact isUnsigned_append whole all rfl rfl
      | true =>
        have zero : isUnsigned (_ ++ '.' :: (['0'] ++ [])) :=
          isUnsigned_point whole all (by simp) (by simp) rfl rfl
        exact zero
    · -- The point stands between digits.
      rename_i positive longer
      have some : first ≠ '0' := by
        intro zero
        obtain ⟨rfl, noExponent⟩ := alone zero
        rw [length] at point_eq longer
        simp only [List.length_nil] at point_eq longer
        omega
      obtain ⟨count, enough⟩ : ∃ count, point.toNat = count + 1 := ⟨point.toNat - 1, by omega⟩
      have split := List.take_append_drop point.toNat (first :: rest)
      rw [← split] at allDigits
      obtain ⟨before, after⟩ := List.forall_mem_append.mp allDigits
      have behind : (first :: rest).drop point.toNat ≠ [] := by
        rw [ne_eq, List.drop_eq_nil_iff]
        omega
      have whole : isWhole ((first :: rest).take point.toNat) := by
        rw [enough, List.take_succ_cons] at before ⊢
        exact isWhole_cons some before
      have number : isUnsigned ((first :: rest).take point.toNat ++
          '.' :: ((first :: rest).drop point.toNat ++ [])) :=
        isUnsigned_point whole before behind after rfl rfl
      rwa [List.append_nil] at number

/-- Digits with a point behind the first one, and a power of ten, are a number. -/
theorem isUnsigned_withExponent (count : Nat) (power : Int) :
    isUnsigned (withExponent (Nat.toDigits 10 count) power) := by
  have allDigits := all_isDigit_toDigits count
  obtain ⟨first, rest, same, _⟩ := exists_toDigits count
  rw [same] at allDigits ⊢
  obtain ⟨firstDigit, restDigits⟩ := List.forall_mem_cons.mp allDigits
  have whole : isWhole [first] := by
    by_cases zero : first = '0'
    · rw [zero]
      rfl
    · exact isWhole_cons zero (List.forall_mem_singleton.mpr firstDigit)
  have exponent := isExponent_signed (power < 0) power.natAbs
  simp only [decide_eq_true_eq] at exponent
  unfold withExponent
  simp only
  cases rest with
  | nil => exact isUnsigned_append whole (List.forall_mem_singleton.mpr firstDigit) rfl exponent
  | cons second others =>
    have longer : ¬ (first :: second :: others).length ≤ 1 := by simp
    have number := isUnsigned_point whole (List.forall_mem_singleton.mpr firstDigit)
      (List.cons_ne_nil second others) restDigits rfl exponent
    rw [if_neg longer]
    exact number

theorem isUnsigned_writeDecimal (format : NumeralFormat) (proper : decimal.Proper) :
    isUnsigned (format.writeDecimal decimal) := by
  unfold writeDecimal
  simp only
  split
  · have number := isUnsigned_pointed format.keepsPoint proper
    rwa [Int.sub_add_cancel]
  · exact isUnsigned_withExponent _ _

/-- Finite numbers are written as numbers. -/
theorem isNumeral_writeBinary (format : NumeralFormat) (negative : Bool) (significand : Nat)
    (exponent : Int) :
    isNumeral (format.writeBinary (.finite negative significand exponent)).toList := by
  have proper : (if significand = 0 then ⟨0, 0⟩
      else Decimal.shortest format.tie significand exponent : Decimal).Proper := by
    split
    · exact fun _ => rfl
    · rename_i some
      exact Decimal.shortest_proper format.tie some exponent
  have number := isUnsigned_writeDecimal format proper
  rw [writeBinary, String.toList_ofList]
  cases negative with
  | true => exact number
  | false => exact isNumeral_of_isUnsigned number

end NumeralFormat

end ExprDiagram
