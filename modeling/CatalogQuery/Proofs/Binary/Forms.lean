import CatalogQuery.Binary.Printer
import CatalogQuery.Proofs.Decimal.Readings
import Mathlib.Algebra.Order.Field.Power

/-!
# Reading the forms of binary numbers as decimals

The digits of a number are written without a power of ten, or with a point and perhaps a power.
Both texts are read as decimals of one value, unless the first digit stands below `10 ^ -28`:
then the text without a power is rounded, and the one with a power is refused.
-/

namespace CatalogQuery.Binary

open Decimal (limit maxScale magnitudeText fitted?)

namespace DecimalForm

def value (d : DecimalForm) : ℚ := d.coefficient * 10 ^ d.power

/-- The digits of a form are those of a decimal, and zero is written as such. -/
structure Reads (d : DecimalForm) : Prop where
  coefficient_lt : d.coefficient < limit
  power_of_zero : d.coefficient = 0 → d.power = 0

/-- The digits of a form as a whole number, with the zeros that stand before the point. -/
def scaled (d : DecimalForm) : Nat := d.coefficient * 10 ^ d.power.toNat

/-- The digits after the point. -/
def places (d : DecimalForm) : Nat := (-d.power).toNat

/-- The decimal next to a form, if it is not too large. -/
def decimal? (d : DecimalForm) (negative : Bool) : Option Decimal :=
  fitted? negative d.scaled d.places

variable {d : DecimalForm}

theorem length_digits_pos (d : DecimalForm) : 0 < d.digits.length :=
  List.length_pos_iff.mpr (Text.digitsOf_ne_nil _)

theorem power_le_leading (d : DecimalForm) : d.power ≤ d.leading := by
  have pos := d.length_digits_pos
  simp only [leading]
  omega

theorem places_or_scaled (h : d.Reads) : d.places = 0 ∨ d.scaled < limit := by
  by_cases whole : 0 ≤ d.power
  · exact .inl (by simp [places, whole])
  · have none : d.power.toNat = 0 := by omega
    right
    rw [scaled, none, Nat.pow_zero, Nat.mul_one]
    exact h.coefficient_lt

/-! ### Without a power -/

theorem plain_eq (h : d.Reads) : d.plain = magnitudeText d.scaled d.places := by
  unfold plain scaled places
  by_cases whole : 0 ≤ d.power
  · have none : (-d.power).toNat = 0 := by omega
    rw [if_pos whole, none, magnitudeText, if_pos rfl, digits]
    by_cases zero : d.coefficient = 0
    · simp [zero, h.power_of_zero zero]
    · exact (Text.digitsOf_mul_pow zero _).symm
  · have none : d.power.toNat = 0 := by omega
    have some : (-d.power).toNat ≠ 0 := by omega
    rw [if_neg whole, none, Nat.pow_zero, Nat.mul_one, magnitudeText, if_neg some]

theorem unmarked_signed {text : List Char} (h : text.any Decimal.isPowerMark = false)
    (negative : Bool) : (signed negative text).any Decimal.isPowerMark = false := by
  cases negative with
  | false => exact h
  | true =>
    rw [signed, if_pos rfl, List.any_cons, h]
    rfl

theorem toOption_read_plain (h : d.Reads) (negative : Bool) :
    (Decimal.read (signed negative d.plain)).toOption =
      (d.decimal? negative).map Decimal.unsignedZero := by
  have unmarked := unmarked_signed (Decimal.unmarked_magnitudeText d.scaled d.places) negative
  rw [plain_eq h, Decimal.toOption_read_unmarked unmarked]
  exact Decimal.toOption_readPlain_magnitudeText (places_or_scaled h) negative

/-! ### With a power -/

/-- The first digit with the others after a point, and the power of the first digit. -/
theorem scientific_eq (d : DecimalForm) :
    d.scientific = magnitudeText d.coefficient (d.digits.length - 1) ++
      'e' :: (if d.leading < 0 then '-' else '+') :: Text.digitsOf d.leading.natAbs := by
  have pos := d.length_digits_pos
  have mantissa : (if (d.digits.drop 1).isEmpty then d.digits
      else d.digits.take 1 ++ '.' :: d.digits.drop 1) =
        magnitudeText d.coefficient (d.digits.length - 1) := by
    have empty : (d.digits.drop 1).isEmpty = true ↔ d.digits.length - 1 = 0 := by
      rw [List.isEmpty_iff, List.drop_eq_nil_iff, Nat.sub_eq_zero_iff_le]
    simp only [empty, magnitudeText]
    split
    · rfl
    · have padded : Text.padded (d.digits.length - 1 + 1) d.coefficient = d.digits := by
        have enough : d.digits.length - 1 + 1 - d.digits.length = 0 := by omega
        change List.replicate (d.digits.length - 1 + 1 - d.digits.length) '0' ++ d.digits = _
        rw [enough]
        rfl
      have whole : d.digits.length - (d.digits.length - 1) = 1 := by omega
      rw [padded, whole]
  rw [scientific, mantissa]

/-- The digits of a form without its power. -/
def mantissa (d : DecimalForm) (h : d.Reads) (negative : Bool) : Decimal :=
  ⟨negative && d.coefficient != 0, d.coefficient, d.digits.length - 1, h.coefficient_lt, by
    have := Text.length_digitsOf_le (by decide : 0 < 29)
      (Nat.lt_trans h.coefficient_lt (by decide : limit < 10 ^ 29))
    simp only [digits, maxScale]
    omega⟩

theorem readPlain_mantissa (h : d.Reads) (negative : Bool) :
    Decimal.readPlain (signed negative (magnitudeText d.coefficient (d.digits.length - 1))) =
      .ok (d.mantissa h negative) := by
  have room : d.digits.length - 1 ≤ maxScale := (d.mantissa h negative).scale_le
  rw [← Outcome.toOption_eq_some]
  refine (Decimal.toOption_readPlain_magnitudeText (.inr h.coefficient_lt) negative).trans ?_
  rw [Decimal.fitted?_of_le room, Decimal.ofParts?, dif_pos ⟨h.coefficient_lt, room⟩]
  rfl

theorem signed_append (negative : Bool) (text rest : List Char) :
    signed negative (text ++ rest) = signed negative text ++ rest := by
  cases negative <;> rfl

/-- The digits are read, and shifted by the power of the first digit if that is small. -/
theorem toOption_read_scientific (h : d.Reads) (negative : Bool) :
    (Decimal.read (signed negative d.scientific)).toOption =
      if d.leading.natAbs ≤ maxScale then d.decimal? (negative && d.coefficient != 0)
      else none := by
  have pos := d.length_digits_pos
  have unmarked := unmarked_signed
    (Decimal.unmarked_magnitudeText d.coefficient (d.digits.length - 1)) negative
  have read := readPlain_mantissa h negative
  rw [scientific_eq, signed_append, Decimal.toOption_read_marked (by simp [Decimal.isPowerMark])]
  by_cases down : d.leading < 0
  · have whole : d.scaled = d.coefficient := by
      have none : d.power.toNat = 0 := by
        simp only [leading] at down
        omega
      rw [scaled, none, Nat.pow_zero, Nat.mul_one]
    have places : d.places = d.digits.length - 1 + d.leading.natAbs := by
      simp only [places, leading] at down ⊢
      omega
    rw [if_pos down, decimal?, whole, places, Decimal.readScientific_down unmarked read]
    exact Decimal.toOption_power (fun power => Decimal.toOption_shiftDown) _
  · have whole : d.power.toNat = d.leading.natAbs - (d.digits.length - 1) := by
      simp only [leading] at down ⊢
      omega
    have places : d.places = d.digits.length - 1 - d.leading.natAbs := by
      simp only [places, leading] at down ⊢
      omega
    rw [if_neg down, decimal?, scaled, whole, places, Decimal.readScientific_up unmarked read,
      Decimal.readPower_plus]
    exact Decimal.toOption_power (fun power => Decimal.toOption_shiftUp) _

/-! ### Both forms -/

theorem map_value_read_plain (h : d.Reads) (negative : Bool) :
    (Decimal.read (signed negative d.plain)).toOption.map Decimal.value =
      (d.decimal? negative).map Decimal.value := by
  rw [toOption_read_plain h, Option.map_map]
  congr 1
  exact funext Decimal.value_unsignedZero

/-- Zero is written with a point. -/
theorem coefficient_ne_zero (h : d.Reads) (scientific : d.isPositional = false) :
    d.coefficient ≠ 0 := by
  intro zero
  have leading : d.leading = 0 := by
    rw [leading, digits, zero, h.power_of_zero zero]
    rfl
  rw [isPositional, leading] at scientific
  cases scientific

theorem decimal?_of_large (h : d.Reads) (nonzero : d.coefficient ≠ 0)
    (large : (maxScale : Int) < d.leading) (negative : Bool) : d.decimal? negative = none := by
  have room : d.digits.length - 1 ≤ maxScale := (d.mantissa h negative).scale_le
  have none : d.places = 0 := by
    simp only [places, leading] at large ⊢
    omega
  have first : 10 ^ (d.digits.length - 1) ≤ d.coefficient := Text.pow_length_digitsOf_le nonzero
  have scaled : limit ≤ d.scaled := calc
    limit ≤ 10 ^ (maxScale + 1) := by decide
    _ ≤ 10 ^ (d.digits.length - 1 + d.power.toNat) :=
      Nat.pow_le_pow_right (by decide) (by simp only [leading] at large; omega)
    _ = 10 ^ (d.digits.length - 1) * 10 ^ d.power.toNat := Nat.pow_add _ _ _
    _ ≤ d.scaled := Nat.mul_le_mul_right _ first
  rw [decimal?, none, Decimal.fitted?_of_le (Nat.zero_le _), Decimal.ofParts?,
    dif_neg fun both => Nat.not_lt.mpr scaled both.1]

theorem map_value_read_point (h : d.Reads) (whole : 0 ≤ d.power) (small : d.leading < 16)
    (negative : Bool) :
    (Decimal.read (signed negative (d.plain ++ ['.', '0']))).toOption.map Decimal.value =
      (d.decimal? negative).map Decimal.value := by
  have none : d.places = 0 := by
    simp only [places]
    omega
  have fits : d.scaled < limit := calc
    d.scaled < 10 ^ d.digits.length * 10 ^ d.power.toNat :=
      Nat.mul_lt_mul_of_pos_right (Text.lt_pow_length_digitsOf _) (Nat.pow_pos (by decide))
    _ = 10 ^ (d.digits.length + d.power.toNat) := (Nat.pow_add _ _ _).symm
    _ ≤ 10 ^ 16 := Nat.pow_le_pow_right (by decide) (by simp only [leading] at small; omega)
    _ ≤ limit := by decide
  let exact : Decimal := ⟨negative, d.scaled, 0, fits, Nat.zero_le _⟩
  have text : signed negative (d.plain ++ ['.', '0']) = exact.queryText := by
    rw [plain_eq h, none, magnitudeText, if_pos rfl, Decimal.queryText_eq]
    rfl
  have found : d.decimal? negative = some exact := by
    rw [decimal?, none, Decimal.fitted?_of_le (Nat.zero_le _), Decimal.ofParts?,
      dif_pos ⟨fits, Nat.zero_le _⟩]
  rw [text, Decimal.read_queryText, found, Outcome.toOption_ok, Option.map_some, Option.map_some,
    (Decimal.equal_iff_value exact exact.normal).mp exact.equal_normal]

/-- **Both forms are read as decimals of one value**, or both are too large, if the first digit
does not stand below the last place of a decimal. -/
theorem pointed_agrees (h : d.Reads) (near : -(maxScale : Int) ≤ d.leading) (negative : Bool) :
    (Decimal.read (signed negative d.pointed)).toOption.map Decimal.value =
      (Decimal.read (signed negative d.plain)).toOption.map Decimal.value := by
  rw [map_value_read_plain h, pointed]
  cases positional : d.isPositional with
  | true =>
    by_cases whole : 0 ≤ d.power
    · have small : d.leading < 16 := by
        rw [isPositional, Bool.and_eq_true, decide_eq_true_eq] at positional
        exact of_decide_eq_true positional.2
      rw [if_pos rfl, if_pos whole]
      exact map_value_read_point h whole small negative
    · rw [if_pos rfl, if_neg whole]
      exact map_value_read_plain h negative
  | false =>
    have nonzero := coefficient_ne_zero h positional
    rw [if_neg Bool.false_ne_true, toOption_read_scientific h, bne_iff_ne.mpr nonzero,
      Bool.and_true]
    split
    · rfl
    · rename_i far
      rw [decimal?_of_large h nonzero (by omega)]

/-- **Digits that all stand below the last place of a decimal are refused with a power, but
rounded without one.** -/
theorem pointed_refused (h : d.Reads) (far : d.leading < -(maxScale : Int)) (negative : Bool) :
    (Decimal.read (signed negative d.pointed)).toOption = none ∧
      ∃ r, (Decimal.read (signed negative d.plain)).toOption = some r := by
  have scientific : d.isPositional = false := by
    simp only [isPositional, maxScale] at far ⊢
    simp
    omega
  have fits : d.scaled < limit := by
    have pos := d.length_digits_pos
    apply (places_or_scaled h).resolve_left
    simp only [places, leading] at far ⊢
    omega
  obtain ⟨r, found⟩ := Decimal.exists_fitted? fits negative d.places
  constructor
  · have large : ¬d.leading.natAbs ≤ maxScale := by omega
    rw [pointed, scientific, if_neg Bool.false_ne_true, toOption_read_scientific h, if_neg large]
  · rw [toOption_read_plain h, decimal?, found]
    exact ⟨_, rfl⟩

theorem scaled_div (d : DecimalForm) : (d.scaled : ℚ) / 10 ^ d.places = d.value := by
  rw [scaled, places, value]
  by_cases whole : 0 ≤ d.power
  · obtain ⟨n, power⟩ := Int.eq_ofNat_of_zero_le whole
    simp [power]
  · obtain ⟨n, power⟩ : ∃ n : Nat, d.power = -n := ⟨(-d.power).toNat, by omega⟩
    simp [power, div_eq_mul_inv]

/-- A form whose digits all fit is read as its number. -/
theorem value_decimal? (fits : d.scaled < limit) (near : -(maxScale : Int) ≤ d.power)
    (negative : Bool) :
    (d.decimal? negative).map Decimal.value = some (if negative then -d.value else d.value) := by
  have room : d.places ≤ maxScale := by
    simp only [places]
    omega
  rw [decimal?, Decimal.fitted?_of_le room, Decimal.ofParts?, dif_pos ⟨fits, room⟩,
    Option.map_some, Decimal.value, Decimal.mantissa, ← scaled_div]
  cases negative with
  | true => simp [neg_div]
  | false => simp

end DecimalForm
end CatalogQuery.Binary
