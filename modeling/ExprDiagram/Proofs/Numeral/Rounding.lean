/-
This file says which numbers floating point numbers are, and which number of hundredths is nearest
to one. The parts that are read off the bits of a finite number give the value that the number has
in the logic. A fraction of whole numbers has one nearest whole number, up to the middle between two
of them, and in the middle only one of the two is even; so rounding has one result, and the division
with remainder finds it.
-/

import ExprDiagram.Numeral.Fixed
import Mathlib

namespace ExprDiagram

open Float.Model

/-! ### Exact values -/

/-- The value of a floating point number by its sign, its significand and its exponent. What is not
a number and what is infinite have none; they count as zero. -/
def unpackedValue : UnpackedFloat → Rat
  | .finite sign significand exponent _ => sign.apply significand * 2 ^ exponent
  | _ => 0

/-- The exact value of a finite floating point number. -/
def exactValue (number : Float) : Rat := unpackedValue number.toModel.unpack

namespace Binary

/-- The exact value of a finite number by its parts. -/
def value : Binary → Rat
  | finite negative significand exponent =>
    (if negative then -(significand : Rat) else significand) * 2 ^ exponent
  | _ => 0

/-! ### Bits -/

variable (bits : BitVec Format.binary64.numBits)

theorem toNat_unpackMantissa :
    (UnpackedFloat.unpackMantissa bits).toNat = bits.toNat % leadingBit := by
  simp [UnpackedFloat.unpackMantissa, leadingBit]

theorem toNat_unpackExponent :
    (UnpackedFloat.unpackExponent bits).toNat = bits.toNat / leadingBit % 2048 := by
  simp [UnpackedFloat.unpackExponent, leadingBit, Nat.shiftRight_eq_div_pow]

theorem toNat_unpackSign :
    (UnpackedFloat.unpackSign bits).toNat = bits.toNat / Nat.pow 2 63 % 2 := by
  simp [UnpackedFloat.unpackSign, Nat.shiftRight_eq_div_pow]

theorem toNat_leading (fraction : BitVec 52) :
    (1#1 ++ fraction).toNat = leadingBit + fraction.toNat := by
  rw [BitVec.toNat_append, ← Nat.shiftLeft_add_eq_or_of_lt fraction.isLt]
  rfl

/-- The exponent bits of a number that is not finite are all set. -/
theorem unpackExponent_eq_iff :
    UnpackedFloat.unpackExponent bits = -1#11 ↔ bits.toNat / leadingBit % 2048 = 2047 := by
  rw [← toNat_unpackExponent, ← BitVec.toNat_inj]
  rfl

theorem unpackExponent_eq_zero_iff :
    UnpackedFloat.unpackExponent bits = 0#11 ↔ bits.toNat / leadingBit % 2048 = 0 := by
  rw [← toNat_unpackExponent, ← BitVec.toNat_inj]
  rfl

theorem unpackMantissa_eq_zero_iff :
    UnpackedFloat.unpackMantissa bits = 0#52 ↔ bits.toNat % leadingBit = 0 := by
  rw [← toNat_unpackMantissa, ← BitVec.toNat_inj]
  rfl

theorem apply_unpackSign (significand : Nat) :
    (((UnpackedFloat.Sign.ofBitVec (UnpackedFloat.unpackSign bits)).apply significand : Int) :
      Rat) = if bits.toNat / Nat.pow 2 63 % 2 == 1 then -(significand : Rat) else significand := by
  have sign : UnpackedFloat.unpackSign bits = 0#1 ↔ bits.toNat / Nat.pow 2 63 % 2 = 0 := by
    rw [← toNat_unpackSign, ← BitVec.toNat_inj]
    rfl
  rw [UnpackedFloat.Sign.ofBitVec]
  by_cases positive : bits.toNat / Nat.pow 2 63 % 2 = 0
  · rw [if_pos (sign.mpr positive), positive]
    exact Int.cast_natCast significand
  · have negative : bits.toNat / Nat.pow 2 63 % 2 = 1 := by omega
    rw [if_neg (sign.not.mpr positive), negative]
    exact (Int.cast_neg _).trans (congrArg _ (Int.cast_natCast significand))

/-- The parts of a finite number are read off its bits, and have its value. -/
theorem exists_ofBits (finite : (UnpackedFloat.unpack Format.binary64 bits).isFinite) :
    ∃ negative significand exponent, ofBits bits.toNat = .finite negative significand exponent ∧
      unpackedValue (UnpackedFloat.unpack Format.binary64 bits) =
        (Binary.finite negative significand exponent).value := by
  have signed := apply_unpackSign bits
  rw [UnpackedFloat.unpack] at finite ⊢
  simp only at finite ⊢
  by_cases special : UnpackedFloat.unpackExponent bits = -1#11
  · rw [if_pos special] at finite
    split at finite <;> cases finite
  · have notSpecial := (unpackExponent_eq_iff bits).not.mp special
    rw [if_neg special]
    by_cases small : UnpackedFloat.unpackExponent bits = 0#11
    · have smallBits := (unpackExponent_eq_zero_iff bits).mp small
      refine ⟨bits.toNat / Nat.pow 2 63 % 2 == 1, bits.toNat % leadingBit, leastExponent, ?_, ?_⟩
      · rw [ofBits, if_neg notSpecial, if_pos smallBits]
      · rw [if_pos small, value, ← signed]
        by_cases zero : UnpackedFloat.unpackMantissa bits = 0#52
        · rw [dif_pos zero, (unpackMantissa_eq_zero_iff bits).mp zero]
          cases UnpackedFloat.Sign.ofBitVec (UnpackedFloat.unpackSign bits) <;>
            exact (zero_mul _).symm
        · rw [dif_neg zero, unpackedValue, toNat_unpackMantissa, toNat_unpackExponent, smallBits]
          rfl
    · have notSmall := (unpackExponent_eq_zero_iff bits).not.mp small
      refine ⟨bits.toNat / Nat.pow 2 63 % 2 == 1, leadingBit + bits.toNat % leadingBit,
        leastExponent + ((bits.toNat / leadingBit % 2048 : Nat) - 1), ?_, ?_⟩
      · rw [ofBits, if_neg notSpecial, if_neg notSmall]
      · rw [if_neg small, value, ← signed, unpackedValue, toNat_leading, toNat_unpackMantissa,
          toNat_unpackExponent]
        congr 2
        rw [leastExponent]
        show _ - (1023 + 52 : Int) = _
        ring

end Binary

theorem exists_ofFloat {number : Float} (finite : number.isFinite) :
    ∃ negative significand exponent,
      Binary.ofFloat number = .finite negative significand exponent ∧
      exactValue number = (Binary.finite negative significand exponent).value :=
  Binary.exists_ofBits number.toModel.toBits.toBitVec finite

/-! ### Nearest whole numbers -/

/-- A whole number is the nearest one to a number. If the number lies in the middle between two of
them, it is the even one. -/
structure NearestEven (number : Rat) (whole : Int) : Prop where
  near : |number - whole| ≤ 1 / 2
  even : |number - whole| = 1 / 2 → Even whole

theorem NearestEven.neg {number : Rat} {whole : Int} (nearest : NearestEven number whole) :
    NearestEven (-number) (-whole) := by
  have same : |-number - (-whole : Int)| = |number - whole| := by
    rw [Int.cast_neg, ← neg_sub', abs_neg]
  exact ⟨same ▸ nearest.near, fun middle => (nearest.even (same ▸ middle)).neg⟩

theorem NearestEven.unique {number : Rat} {first second : Int}
    (here : NearestEven number first) (there : NearestEven number second) : first = second := by
  by_contra different
  have apart : (1 : Rat) ≤ |(first : Rat) - second| := by
    exact_mod_cast Int.one_le_abs (sub_ne_zero.mpr different)
  have split : |(first : Rat) - second| ≤ |number - first| + |number - second| := by
    rw [abs_sub_comm number first]
    exact abs_sub_le _ _ _
  -- Both numbers are as far as they may be, so both are even, and one apart.
  have evenHere := here.even (by linarith [here.near, there.near])
  have evenThere := there.even (by linarith [here.near, there.near])
  have close : |first - second| ≤ 1 := by
    exact_mod_cast (by push_cast; linarith [here.near, there.near] :
      ((|first - second| : Int) : Rat) ≤ (1 : Int))
  obtain ⟨half, sum⟩ := evenHere.sub evenThere
  rw [sum] at close
  rw [abs_le] at close
  omega

theorem nearestEven_of_part {whole : Int} {part : Rat} (least : 0 ≤ part) (below : part < 1 / 2) :
    NearestEven (whole + part) whole := by
  have distance : |(whole : Rat) + part - whole| = part := by
    rw [add_sub_cancel_left, abs_of_nonneg least]
  exact ⟨distance.trans_le below.le, fun middle => absurd (distance.symm.trans middle) below.ne⟩

theorem nearestEven_succ_of_part {whole : Int} {part : Rat} (above : 1 / 2 < part)
    (less : part < 1) : NearestEven (whole + part) (whole + 1 : Int) := by
  have distance : |(whole : Rat) + part - (whole + 1 : Int)| = 1 - part := by
    rw [abs_sub_comm, abs_of_nonneg (by push_cast; linarith)]
    push_cast
    ring
  exact ⟨by linarith, fun middle => by linarith⟩

theorem nearestEven_of_half (whole : Nat) :
    NearestEven ((whole : Int) + 1 / 2) (whole + whole % 2 : Nat) := by
  have even : Even ((whole + whole % 2 : Nat) : Int) := by
    rw [Int.even_iff]
    omega
  refine ⟨?_, fun _ => even⟩
  rw [Nat.cast_add, Int.cast_add, add_sub_add_left_eq_sub]
  rcases Nat.mod_two_eq_zero_or_one whole with here | next
  · rw [here]
    norm_num
  · rw [next]
    norm_num

/-- Division with remainder finds the nearest whole number of a fraction. -/
theorem nearestEven_nearest (numerator : Nat) {denominator : Nat} (positive : 0 < denominator) :
    NearestEven (numerator / denominator) (nearestEven numerator denominator) := by
  have positiveRat : (0 : Rat) < denominator := Nat.cast_pos.mpr positive
  have parts : (numerator : Rat) / denominator = ((numerator / denominator : Nat) : Int) +
      ((numerator % denominator : Nat) : Rat) / denominator := by
    rw [div_eq_iff positiveRat.ne', add_mul, div_mul_cancel₀ _ positiveRat.ne', Int.cast_natCast,
      ← Nat.cast_mul, ← Nat.cast_add, Nat.div_add_mod']
  rw [parts, nearestEven]
  split_ifs with below above
  · refine nearestEven_of_part (div_nonneg (Nat.cast_nonneg _) positiveRat.le) ?_
    rw [div_lt_iff₀ positiveRat]
    have compared : ((2 * (numerator % denominator) : Nat) : Rat) < denominator :=
      Nat.cast_lt.mpr below
    push_cast at compared
    linarith
  · rw [Nat.cast_succ]
    refine nearestEven_succ_of_part ?_ ?_
    · rw [lt_div_iff₀ positiveRat]
      have compared : (denominator : Rat) < (2 * (numerator % denominator) : Nat) :=
        Nat.cast_lt.mpr above
      push_cast at compared
      linarith
    · rw [div_lt_one positiveRat]
      exact Nat.cast_lt.mpr (Nat.mod_lt numerator positive)
  · have middle : 2 * (numerator % denominator) = denominator := by omega
    have half : ((numerator % denominator : Nat) : Rat) / denominator = 1 / 2 := by
      rw [div_eq_iff positiveRat.ne']
      have compared : ((2 * (numerator % denominator) : Nat) : Rat) = denominator :=
        congrArg Nat.cast middle
      push_cast at compared
      linarith
    rw [half]
    exact nearestEven_of_half (numerator / denominator)

/-! ### Hundredths -/

theorem numerator_div_denominator (significand : Nat) (exponent : Int) :
    (Binary.numerator significand exponent : Rat) / Binary.denominator exponent =
      significand * 2 ^ exponent := by
  rw [Binary.numerator, Binary.denominator, Nat.pow_eq, Nat.pow_eq, Nat.cast_mul, Nat.cast_pow,
    Nat.cast_pow, Nat.cast_ofNat, mul_div_assoc]
  congr 1
  rcases Int.le_total 0 exponent with positive | negative
  · rw [Int.toNat_eq_zero.mpr (Int.neg_nonpos_of_nonneg positive), pow_zero, div_one,
      ← zpow_natCast, Int.toNat_of_nonneg positive]
  · rw [Int.toNat_eq_zero.mpr negative, pow_zero, one_div, ← zpow_natCast,
      Int.toNat_of_nonneg (Int.neg_nonneg_of_nonpos negative), zpow_neg, inv_inv]

/-- The number of hundredths, with the sign of the number. -/
def signedHundredths (negative : Bool) (significand : Nat) (exponent : Int) : Int :=
  if negative then -hundredths significand exponent else hundredths significand exponent

theorem natAbs_signedHundredths (negative : Bool) (significand : Nat) (exponent : Int) :
    (signedHundredths negative significand exponent).natAbs = hundredths significand exponent := by
  cases negative
  · exact Int.natAbs_natCast _
  · exact (Int.natAbs_neg _).trans (Int.natAbs_natCast _)

theorem signedHundredths_neg_iff (negative : Bool) (significand : Nat) (exponent : Int) :
    signedHundredths negative significand exponent < 0 ↔
      negative ∧ hundredths significand exponent ≠ 0 := by
  cases negative <;> simp [signedHundredths, Nat.pos_iff_ne_zero]

/-- The number of hundredths is nearest to a hundred times the number. -/
theorem nearestEven_hundredths (negative : Bool) (significand : Nat) (exponent : Int) :
    NearestEven (100 * (Binary.finite negative significand exponent).value)
      (signedHundredths negative significand exponent) := by
  have positive : 0 < Binary.denominator exponent := Nat.pow_pos (by decide)
  have nearest := nearestEven_nearest (100 * Binary.numerator significand exponent) positive
  rw [Nat.cast_mul, mul_div_assoc, numerator_div_denominator, Nat.cast_ofNat] at nearest
  cases negative with
  | false => exact nearest
  | true =>
    have opposite : 100 * (Binary.finite true significand exponent).value =
        -(100 * ((significand : Rat) * 2 ^ exponent)) := by
      rw [Binary.value, if_pos rfl]
      ring
    rw [opposite]
    exact nearest.neg

end ExprDiagram
