/-
This file says what the numbers in a vector drawing stand for. A number is written with two decimal
places; then zeros are taken off the end of the text, and then points. As there is a point in front
of the two places, the zeros of the digits before it are out of reach, and the point goes only when
both places do. What is left reads back as the rounded number, and there is one text for each: the
sign of what has been rounded to zero is left out as well.
-/

import ExprDiagram.Proofs.Numeral.Rounding

namespace ExprDiagram

/-! ### Decimal texts -/

/-- A decimal text by its parts. -/
structure DecimalText where
  /-- Whether a sign stands in front. -/
  negative : Bool
  /-- The digits before the point. -/
  whole : List Char
  /-- The digits behind the point; without any, there is no point. -/
  places : List Char
  deriving DecidableEq

namespace DecimalText

/-- The characters of a text. -/
def write (text : DecimalText) : List Char :=
  (if text.negative then ['-'] else []) ++
    (text.whole ++ if text.places = [] then [] else '.' :: text.places)

/-- Reads what follows the sign: digits, and perhaps a point with digits behind it. Nothing else may
stand in the text. -/
def readUnsigned? (negative : Bool) (characters : List Char) : Option DecimalText :=
  let whole := characters.takeWhile Char.isDigit
  if whole = [] then none
  else match characters.dropWhile Char.isDigit with
    | [] => some ⟨negative, whole, []⟩
    | point :: places =>
      if point = '.' ∧ places ≠ [] ∧ places.all Char.isDigit then some ⟨negative, whole, places⟩
      else none

/-- Reads a decimal text. -/
def read? (characters : List Char) : Option DecimalText :=
  if characters.head? = some '-' then readUnsigned? true characters.tail
  else readUnsigned? false characters

/-- The number that a text stands for. -/
def value (text : DecimalText) : Rat :=
  let digits := Nat.ofDigitChars 10 (text.whole ++ text.places) 0
  (if text.negative then -(digits : Rat) else digits) / 10 ^ text.places.length

/-- There are digits before the point, and only digits on both sides of it. -/
structure Proper (text : DecimalText) : Prop where
  nonempty : text.whole ≠ []
  whole : ∀ digit ∈ text.whole, digit.isDigit
  places : ∀ digit ∈ text.places, digit.isDigit

variable {text : DecimalText}

theorem Proper.readUnsigned?_eq (proper : text.Proper) :
    readUnsigned? text.negative
      (text.whole ++ if text.places = [] then [] else '.' :: text.places) = some text := by
  obtain ⟨negative, whole, places⟩ := text
  obtain ⟨nonempty, allWhole, allPlaces⟩ := proper
  rw [readUnsigned?, List.takeWhile_append_of_pos allWhole, List.dropWhile_append_of_pos allWhole]
  by_cases none : places = []
  · subst none
    simp [nonempty]
  · have all : places.all Char.isDigit := List.all_eq_true.mpr allPlaces
    rw [if_neg none]
    simp [nonempty, none, all]

/-- What is written reads back. -/
theorem Proper.read?_write (proper : text.Proper) : read? text.write = some text := by
  have unsigned := proper.readUnsigned?_eq
  obtain ⟨negative, whole, places⟩ := text
  obtain ⟨first, rest, rfl⟩ := List.exists_cons_of_ne_nil proper.nonempty
  have digit : first ≠ '-' := by
    rintro rfl
    exact absurd (proper.whole '-' List.mem_cons_self) (by decide)
  cases negative with
  | false =>
    rw [read?, write, if_neg Bool.false_ne_true, List.nil_append, if_neg]
    · exact unsigned
    · exact fun same => digit (Option.some.inj same)
  | true =>
    rw [read?, write, if_pos rfl, List.singleton_append, List.head?_cons, if_pos rfl,
      List.tail_cons]
    exact unsigned

end DecimalText

/-! ### Trimming -/

theorem trimEnd_append (character : Char) (front back : List Char) :
    trimEnd character (front ++ back) =
      if trimEnd character back = [] then trimEnd character front
      else front ++ trimEnd character back := by
  simp only [trimEnd, List.reverse_append, List.dropWhile_append, List.isEmpty_iff,
    List.reverse_eq_nil_iff]
  split
  · rfl
  · rw [List.reverse_append, List.reverse_reverse]

theorem isPrefix_trimEnd (character : Char) (text : List Char) : trimEnd character text <+: text :=
  List.rdropWhile_prefix _ _

/-- Nothing is trimmed from a text that does not hold the character. -/
theorem trimEnd_of_notMem {character : Char} {text : List Char} (outside : character ∉ text) :
    trimEnd character text = text := by
  refine List.rdropWhile_eq_self_iff.mpr fun nonempty => ?_
  rw [beq_iff_eq]
  exact fun same => outside (same ▸ List.getLast_mem nonempty)

theorem getLast?_trimEnd (character : Char) (text : List Char) :
    (trimEnd character text).getLast? ≠ some character := by
  intro last
  obtain ⟨front, same⟩ := List.getLast?_eq_some_iff.mp last
  have nonempty : trimEnd character text ≠ [] := by
    rw [same]
    exact List.concat_ne_nil character front
  exact List.rdropWhile_last_not (· == character) text nonempty
    (beq_iff_eq.mpr (List.getLast_of_getLast?_eq_some last))

/-- Only the character itself is trimmed. -/
theorem exists_trimEnd_append (character : Char) (text : List Char) :
    ∃ count, text = trimEnd character text ++ List.replicate count character := by
  induction text using List.reverseRecOn with
  | nil => exact ⟨0, rfl⟩
  | append_singleton front last inductionHypothesis =>
    rw [trimEnd_append]
    by_cases same : last = character
    · obtain ⟨count, split⟩ := inductionHypothesis
      refine ⟨count + 1, ?_⟩
      rw [same, if_pos (by simp [trimEnd]), List.replicate_succ', ← List.append_assoc, ← split]
    · refine ⟨0, ?_⟩
      have kept : trimEnd character [last] = [last] :=
        trimEnd_of_notMem fun member => same (List.mem_singleton.mp member).symm
      rw [kept, if_neg (List.cons_ne_nil _ _), List.replicate_zero, List.append_nil]

namespace DecimalText

variable {text : DecimalText}

theorem Proper.point_notMem (proper : text.Proper) :
    '.' ∉ (if text.negative then ['-'] else []) ++ text.whole := by
  intro member
  rcases List.mem_append.mp member with inSign | inWhole
  · split at inSign
    · exact absurd (List.mem_singleton.mp inSign) (by decide)
    · cases inSign
  · exact absurd (proper.whole '.' inWhole) (by decide)

/-- A text without the zeros at the end of its places. -/
def shorten (text : DecimalText) : DecimalText :=
  { text with places := trimEnd '0' text.places }

theorem Proper.shorten (proper : text.Proper) : text.shorten.Proper :=
  ⟨proper.nonempty, proper.whole,
    fun digit member => proper.places digit ((isPrefix_trimEnd '0' text.places).subset member)⟩

/-- Trimming zeros and then points off a text with places takes off zeros at the end of its places,
and the point if there are no other places. -/
theorem Proper.trim_write (proper : text.Proper) (nonempty : text.places ≠ []) :
    trimEnd '.' (trimEnd '0' text.write) = text.shorten.write := by
  have written : text.write =
      ((if text.negative then ['-'] else []) ++ text.whole ++ ['.']) ++ text.places := by
    rw [write, if_neg nonempty, List.append_assoc, List.append_assoc, List.singleton_append]
  have point : '.' ∉ trimEnd '0' text.places := fun member =>
    absurd (proper.shorten.places '.' member) (by decide)
  rw [written, trimEnd_append, write, DecimalText.shorten]
  dsimp only
  by_cases zeros : trimEnd '0' text.places = []
  · -- The point holds back what is in front of it from losing zeros.
    have kept : trimEnd '0' ['.'] = ['.'] := rfl
    have dropped : trimEnd '.' ['.'] = [] := rfl
    rw [if_pos zeros, if_pos zeros, List.append_nil, trimEnd_append, kept,
      if_neg (List.cons_ne_nil _ _), trimEnd_append, dropped, if_pos rfl,
      trimEnd_of_notMem proper.point_notMem]
  · rw [if_neg zeros, if_neg zeros, trimEnd_append, trimEnd_of_notMem point, if_neg zeros,
      List.append_assoc, List.append_assoc, List.singleton_append]

/-- Zeros at the end of the places do not count. -/
theorem value_shorten : text.shorten.value = text.value := by
  obtain ⟨count, split⟩ := exists_trimEnd_append '0' text.places
  have digits : Nat.ofDigitChars 10 (text.whole ++ text.places) 0 =
      10 ^ count * Nat.ofDigitChars 10 (text.whole ++ text.shorten.places) 0 := by
    rw [split, ← List.append_assoc, Nat.ofDigitChars_append, Nat.ofDigitChars_replicate_zero]
    rfl
  have length : text.places.length = text.shorten.places.length + count := by
    rw [split, List.length_append, List.length_replicate]
    rfl
  have positive : (10 : Rat) ^ count ≠ 0 := pow_ne_zero count (by decide)
  rw [value, value, digits, length, pow_add, mul_comm (_ ^ _) ((10 : Rat) ^ count)]
  push_cast
  rw [← mul_neg, ← mul_ite, mul_div_mul_left _ _ positive]
  rfl

end DecimalText

/-! ### Texts of hundredths -/

/-- The text of a number of hundredths with both places. -/
def fixedText (negative : Bool) (count : Nat) : DecimalText :=
  ⟨negative, Nat.toDigits 10 (count / 100),
    [Nat.digitChar (count / 10 % 10), Nat.digitChar (count % 10)]⟩

theorem writeFixed_finite (negative : Bool) (significand : Nat) (exponent : Int) :
    (Binary.finite negative significand exponent).writeFixed =
      (fixedText negative (hundredths significand exponent)).write := by
  cases negative <;> rfl

section

variable (negative : Bool) (count : Nat)

theorem proper_fixedText : (fixedText negative count).Proper := by
  refine ⟨Nat.toDigits_ne_nil, fun digit member => ?_, fun digit member => ?_⟩
  · exact Nat.isDigit_of_mem_toDigits (by decide) (le_refl 10) member
  · rcases List.mem_pair.mp member with rfl | rfl
    · exact Nat.isDigit_digitChar.trans (decide_eq_true (Nat.mod_lt _ (by decide)))
    · exact Nat.isDigit_digitChar.trans (decide_eq_true (Nat.mod_lt _ (by decide)))

theorem value_fixedText :
    (fixedText negative count).value = (if negative then -(count : Rat) else count) / 100 := by
  have digits : Nat.ofDigitChars 10 ((fixedText negative count).whole ++
      (fixedText negative count).places) 0 = count := by
    rw [Nat.ofDigitChars_append, fixedText, Nat.ofDigitChars_ten_toDigits,
      Nat.ofDigitChars_cons_digitChar_of_lt_ten (Nat.mod_lt _ (by decide)),
      Nat.ofDigitChars_cons_digitChar_of_lt_ten (Nat.mod_lt _ (by decide)), Nat.ofDigitChars_nil]
    omega
  have hundred : (10 : Rat) ^ 2 = 100 := by norm_num
  rw [DecimalText.value, digits, ← hundred]
  rfl

end

/-- The text of a number of hundredths without zeros at the end of its places. Zero has no sign. -/
def shortText (count : Int) : DecimalText :=
  (fixedText (count < 0) count.natAbs).shorten

theorem value_shortText (count : Int) : (shortText count).value = count / 100 := by
  rw [shortText, DecimalText.value_shorten, value_fixedText]
  congr 1
  by_cases negative : count < 0
  · rw [if_pos (decide_eq_true negative), Nat.cast_natAbs, abs_of_neg negative, Int.cast_neg,
      neg_neg]
  · rw [if_neg (by simpa using negative), Nat.cast_natAbs, abs_of_nonneg (not_lt.mp negative)]

theorem read?_write_shortText (count : Int) :
    DecimalText.read? (shortText count).write = some (shortText count) :=
  (proper_fixedText _ _).shorten.read?_write

/-- Different numbers of hundredths have different texts. -/
theorem write_shortText_inj {first second : Int} :
    (shortText first).write = (shortText second).write ↔ first = second := by
  refine ⟨fun same => ?_, fun same => same ▸ rfl⟩
  have read := read?_write_shortText first
  rw [same, read?_write_shortText] at read
  have values := value_shortText first
  rw [← Option.some.inj read, value_shortText] at values
  exact Int.cast_injective ((div_left_inj' (by norm_num)).mp values).symm

/-- A sign without other digits than zero is only written for a number that is rounded to zero from
below. -/
theorem write_shorten_eq_iff (negative : Bool) (count : Nat) :
    (fixedText negative count).shorten.write = ['-', '0'] ↔ negative ∧ count = 0 := by
  constructor
  · intro written
    have read := (proper_fixedText negative count).shorten.read?_write
    have parts : DecimalText.read? ['-', '0'] = some ⟨true, ['0'], []⟩ := by decide
    rw [written, parts] at read
    have same := Option.some.inj read
    have value : (⟨true, ['0'], []⟩ : DecimalText).value = 0 := by decide +kernel
    have isNegative : negative = true := (congrArg DecimalText.negative same).symm
    rw [same, DecimalText.value_shorten, value_fixedText, if_pos isNegative, div_eq_zero_iff,
      neg_eq_zero, Nat.cast_eq_zero] at value
    exact ⟨isNegative, value.resolve_right (by norm_num)⟩
  · rintro ⟨isNegative, rfl⟩
    rw [isNegative]
    decide

theorem write_shortText_ne (count : Int) : (shortText count).write ≠ ['-', '0'] := by
  intro written
  obtain ⟨negative, zero⟩ := (write_shorten_eq_iff _ _).mp written
  rw [Int.natAbs_eq_zero.mp zero] at negative
  exact absurd negative (by decide)

/-- The text of a finite number is the text of its hundredths. -/
theorem writeShort_finite (negative : Bool) (significand : Nat) (exponent : Int) :
    (Binary.finite negative significand exponent).writeShort =
      String.ofList (shortText (signedHundredths negative significand exponent)).write := by
  have proper := proper_fixedText negative (hundredths significand exponent)
  have sign := signedHundredths_neg_iff negative significand exponent
  rw [Binary.writeShort, writeFixed_finite, proper.trim_write (List.cons_ne_nil _ _), shortText,
    natAbs_signedHundredths]
  by_cases zero : negative ∧ hundredths significand exponent = 0
  · have unsigned : ¬ signedHundredths negative significand exponent < 0 :=
      fun less => (sign.mp less).2 zero.2
    rw [if_pos ((write_shorten_eq_iff _ _).mpr zero), decide_eq_false unsigned, zero.2]
    decide
  · have same : decide (signedHundredths negative significand exponent < 0) = negative := by
      rw [Bool.eq_iff_iff, decide_eq_true_iff, sign]
      exact ⟨And.left, fun isNegative => ⟨isNegative, fun none => zero ⟨isNegative, none⟩⟩⟩
    rw [if_neg ((write_shorten_eq_iff _ _).not.mpr zero), same]

/-! ### Texts of floating point numbers -/

/-- How a text with at most two places comes from the text with both: only zeros at the end of the
places are left out, and a sign in front of zero. Both texts stand for the number of hundredths. -/
structure Shortened (count : Int) (fixed short : DecimalText) : Prop where
  length : fixed.places.length = 2
  value_fixed : fixed.value = count / 100
  value_short : short.value = count / 100
  sign : short.negative ↔ count < 0
  whole : short.whole = fixed.whole
  places : short.places <+: fixed.places
  last : short.places.getLast? ≠ some '0'

theorem shortened (negative : Bool) (significand : Nat) (exponent : Int) :
    Shortened (signedHundredths negative significand exponent)
      (fixedText negative (hundredths significand exponent))
      (shortText (signedHundredths negative significand exponent)) where
  length := rfl
  value_fixed := by
    rw [value_fixedText, signedHundredths]
    cases negative
    · rfl
    · rw [if_pos rfl, if_pos rfl, Int.cast_neg, Int.cast_natCast]
  value_short := value_shortText _
  sign := decide_eq_true_iff
  whole := by
    rw [shortText, natAbs_signedHundredths]
    rfl
  places := by
    rw [shortText, natAbs_signedHundredths]
    exact isPrefix_trimEnd '0' _
  last := getLast?_trimEnd '0' _

/-- The short text of a finite floating point number is a decimal text, and the only one, of the
number of hundredths nearest to it. The text with two places stands for the same number, and has the
same digits before the point; the short one has no zero at the end of its places, and no sign of
zero. Two numbers have the same short text just when the same number of hundredths is nearest to
both. -/
theorem writeShort_canonical (number : Float) (finite : number.isFinite) :
    ∃ (count : Int) (fixed short : DecimalText), NearestEven (100 * exactValue number) count ∧
      DecimalText.read? (Binary.ofFloat number).writeFixed = some fixed ∧
      DecimalText.read? (writeShort number).toList = some short ∧
      Shortened count fixed short ∧ writeShort number ≠ "-0" ∧
      ∀ (other : Float) (otherCount : Int), other.isFinite →
        NearestEven (100 * exactValue other) otherCount →
        (writeShort number = writeShort other ↔ count = otherCount) := by
  obtain ⟨negative, significand, exponent, parts, exact⟩ := exists_ofFloat finite
  have nearest := nearestEven_hundredths negative significand exponent
  have text : writeShort number =
      String.ofList (shortText (signedHundredths negative significand exponent)).write := by
    rw [writeShort, parts, writeShort_finite]
  refine ⟨signedHundredths negative significand exponent,
    fixedText negative (hundredths significand exponent),
    shortText (signedHundredths negative significand exponent), exact ▸ nearest, ?_, ?_,
    shortened negative significand exponent, ?_,
    fun other otherCount otherFinite otherNearest => ?_⟩
  · rw [parts, writeFixed_finite, (proper_fixedText _ _).read?_write]
  · rw [text, String.toList_ofList, read?_write_shortText]
  · rw [text, Ne, ← String.toList_inj, String.toList_ofList]
    exact write_shortText_ne _
  · obtain ⟨otherNegative, otherSignificand, otherExponent, otherParts, otherExact⟩ :=
      exists_ofFloat otherFinite
    rw [otherExact] at otherNearest
    rw [text, writeShort, otherParts, writeShort_finite, String.ofList_inj, write_shortText_inj,
      (nearestEven_hundredths _ _ _).unique otherNearest]

theorem writeShort_canonical_sign :
    (-0.001 : Float).isFinite ∧ NearestEven (100 * exactValue (-0.001)) 0 ∧
      DecimalText.read? (Binary.ofFloat (-0.001)).writeFixed = some ⟨true, ['0'], ['0', '0']⟩ ∧
      DecimalText.read? (writeShort (-0.001)).toList = some ⟨false, ['0'], []⟩ ∧
      Shortened 0 ⟨true, ['0'], ['0', '0']⟩ ⟨false, ['0'], []⟩ ∧ writeShort (-0.001) ≠ "-0" ∧
      writeShort (-0.001) = writeShort 0 := by
  have finite : (-0.001 : Float).isFinite := by decide
  obtain ⟨count, fixed, short, nearest, readFixed, readShort, shortened, unsigned, same⟩ :=
    writeShort_canonical (-0.001) finite
  have evaluated : DecimalText.read? (Binary.ofFloat (-0.001)).writeFixed =
      some ⟨true, ['0'], ['0', '0']⟩ := by decide
  have evaluatedShort : DecimalText.read? (writeShort (-0.001)).toList =
      some ⟨false, ['0'], []⟩ := by decide
  obtain rfl := Option.some.inj (evaluated.symm.trans readFixed)
  obtain rfl := Option.some.inj (evaluatedShort.symm.trans readShort)
  have zero : (⟨false, ['0'], []⟩ : DecimalText).value = 0 := by decide +kernel
  rw [shortened.value_short, div_eq_zero_iff, Int.cast_eq_zero] at zero
  obtain rfl := zero.resolve_right (by norm_num)
  have nothing : NearestEven (100 * exactValue 0) 0 := by
    have exact : exactValue 0 = 0 := rfl
    rw [exact]
    exact ⟨by norm_num, fun _ => Even.zero⟩
  exact ⟨finite, nearest, evaluated, evaluatedShort, shortened, unsigned,
    (same 0 0 (by decide) nothing).mpr rfl⟩

example : writeShort 1000000 = "1000000" := by decide

end ExprDiagram
