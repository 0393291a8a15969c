import CatalogQuery.Proofs.Binary.Shortest
import Mathlib.Data.Nat.Prime.Basic

namespace CatalogQuery.Binary.Finite

/-! ### Powers of five -/

/-- Halves of a decimal with places that are binary fractions. -/
theorem five_pow_dvd_odd {m b k n : Nat} (h : 2 * m * 10 ^ k = (2 * b + 1) * 2 ^ n) :
    5 ^ k ∣ 2 * b + 1 := by
  have coprime : Nat.Coprime (5 ^ k) (2 ^ n) := Nat.Coprime.pow _ _ (by decide)
  apply coprime.dvd_of_dvd_mul_right
  rw [← h]
  exact Dvd.dvd.mul_left (pow_dvd_pow_of_dvd (by decide) k) _

/-- Halves of a whole decimal that are binary numbers. -/
theorem five_pow_dvd_significand {m b k n : Nat} (h : 2 * m * 2 ^ n = (2 * b + 1) * 10 ^ k) :
    5 ^ k ∣ m ∧ n + 1 ≤ k := by
  have tens : 10 ^ k = 5 ^ k * 2 ^ k := by rw [← Nat.mul_pow]
  have twos : m * 2 ^ (n + 1) = (2 * b + 1) * 10 ^ k := by
    rw [← h, Nat.pow_succ]
    ring
  constructor
  · have coprime : Nat.Coprime (5 ^ k) (2 ^ (n + 1)) := Nat.Coprime.pow _ _ (by decide)
    apply coprime.dvd_of_dvd_mul_right
    rw [twos, tens]
    exact Dvd.dvd.mul_left (Dvd.intro _ rfl) _
  · have odd : Nat.Coprime (2 ^ (n + 1)) ((2 * b + 1) * 5 ^ k) := by
      apply Nat.Coprime.pow_left
      rw [Nat.coprime_two_left]
      exact Odd.mul ⟨b, rfl⟩ (Odd.pow (by decide))
    have divides : 2 ^ (n + 1) ∣ 2 ^ k := by
      apply odd.dvd_of_dvd_mul_left
      rw [mul_assoc, ← tens, ← twos]
      exact Dvd.intro_left m rfl
    exact (Nat.pow_dvd_pow_iff_le_right (by decide)).mp divides

/-! ### The size of such a number -/

variable {x : Finite .double}

/-- What is not larger than its significand is not too large. -/
theorem significand_div_lt {m : Nat} (bits : m < 2 ^ 53) (n : Nat) :
    (m : ℚ) * 2 ^ (-(n : Int)) < 2 ^ 74 := by
  have small : (2 : ℚ) ^ (-(n : Int)) ≤ 1 := zpow_le_one_of_nonpos₀ (by norm_num) (by omega)
  have whole : (m : ℚ) < 2 ^ 53 := by exact_mod_cast bits
  calc (m : ℚ) * 2 ^ (-(n : Int)) ≤ m * 1 := mul_le_mul_of_nonneg_left small (Nat.cast_nonneg m)
    _ < 2 ^ 74 := by linarith

/-- **What is exactly between two decimals is neither too large nor too small for a decimal.** -/
theorem halfway_bounds (nonzero : x.significand ≠ 0) {count : Nat} (few : count < mostDigits)
    (h : x.IsHalfway (count + 1)) : -24 ≤ x.place (count + 1) ∧ x.magnitude < 2 ^ 74 := by
  have bits : x.significand < 2 ^ 53 := x.canonical.1
  have digits : x.below (count + 1) < 10 ^ 17 :=
    Nat.lt_of_lt_of_le (below_bounds nonzero count).2 (Nat.pow_le_pow_right (by decide) few)
  rw [IsHalfway, magnitude] at h
  rw [magnitude]
  generalize x.significand = m at *
  generalize x.below (count + 1) = b at *
  -- Either power may divide. All factors of five are in the significand, or in the odd number
  -- of halves, and both are small.
  obtain ⟨k, place | place⟩ := (x.place (count + 1)).eq_nat_or_neg <;>
    obtain ⟨n, exponent | exponent⟩ := x.exponent.eq_nat_or_neg <;>
    rw [place, exponent] at h <;> rw [place, exponent]
  · have whole : 2 * m * 2 ^ n = (2 * b + 1) * 10 ^ k := by
      rw [zpow_natCast, zpow_natCast, ← mul_assoc] at h
      exact_mod_cast h
    obtain ⟨fives, twos⟩ := five_pow_dvd_significand whole
    have few : k < 23 := by
      have bound : 5 ^ k < 5 ^ 23 := calc
        5 ^ k ≤ m := Nat.le_of_dvd (Nat.pos_of_ne_zero nonzero) fives
        _ < 2 ^ 53 := bits
        _ < 5 ^ 23 := by decide
      exact (Nat.pow_lt_pow_iff_right (by decide)).mp bound
    have bound : m * 2 ^ n < 2 ^ 74 := calc
      m * 2 ^ n < 2 ^ 53 * 2 ^ n := Nat.mul_lt_mul_of_pos_right bits (Nat.pow_pos (by decide))
      _ ≤ 2 ^ 53 * 2 ^ 21 := Nat.mul_le_mul_left _ (Nat.pow_le_pow_right (by decide) (by omega))
      _ = 2 ^ 74 := by decide
    rw [zpow_natCast]
    exact ⟨by omega, by exact_mod_cast bound⟩
  · exact ⟨by omega, significand_div_lt bits n⟩
  · -- A half is no whole number.
    have whole : 2 * (m * 2 ^ n * 10 ^ k) = 2 * b + 1 := by
      rw [zpow_natCast, zpow_neg, zpow_natCast, eq_mul_inv_iff_mul_eq₀ (by positivity)] at h
      have natural : 2 * (m * 2 ^ n) * 10 ^ k = 2 * b + 1 := by exact_mod_cast h
      rw [← natural]
      ring
    omega
  · have parts : 2 * m * 10 ^ k = (2 * b + 1) * 2 ^ n := by
      rw [zpow_neg, zpow_neg, zpow_natCast, zpow_natCast, ← mul_assoc, ← div_eq_mul_inv,
        ← div_eq_mul_inv, div_eq_div_iff (by positivity) (by positivity)] at h
      exact_mod_cast h
    have bound : 5 ^ k < 5 ^ 25 := calc
      5 ^ k ≤ 2 * b + 1 := Nat.le_of_dvd (Nat.succ_pos _) (five_pow_dvd_odd parts)
      _ < 5 ^ 25 := by omega
    have few : k < 25 := (Nat.pow_lt_pow_iff_right (by decide)).mp bound
    exact ⟨by omega, significand_div_lt bits n⟩

/-! ### Reading both texts -/

/-- Digits that stand for a small number are all read. -/
theorem value_of_small {d : DecimalForm} (reads : d.Reads) (small : d.value < 2 ^ 96)
    (near : -24 ≤ d.power) (negative : Bool) :
    (d.decimal? negative).map Decimal.value = some (if negative then -d.value else d.value) := by
  have fits : d.scaled < Decimal.limit := by
    rcases d.places_or_scaled reads with whole | fits
    · have same := d.scaled_div
      rw [whole, pow_zero, div_one] at same
      rw [← same] at small
      have limit : Decimal.limit = 2 ^ 96 := by decide
      rw [limit]
      exact_mod_cast small
    · exact fits
  have room : -(Decimal.maxScale : Int) ≤ d.power := by
    simp only [Decimal.maxScale]
    omega
  exact DecimalForm.value_decimal? fits room negative

/-- **Where the shortest digits differ, both texts are read, as different decimals.** -/
theorem texts_differ (h : x.shortest .greater ≠ x.shortest .even) :
    ∃ a b, (Decimal.read x.plainText).toOption.map Decimal.value = some a ∧
      (Decimal.read x.jsonText).toOption.map Decimal.value = some b ∧ a ≠ b := by
  obtain ⟨nonzero, count, few, halfway, even, greater⟩ := shortest_of_ne h
  obtain ⟨place, small⟩ := halfway_bounds nonzero few halfway
  obtain ⟨lower, -, lowerPower⟩ := (x.lower (count + 1)).trimmed_spec mostDigits
  obtain ⟨upper, -, upperPower⟩ := (x.upper (count + 1)).trimmed_spec mostDigits
  rw [← even] at lower lowerPower
  rw [← greater] at upper upperPower
  rw [value_upper] at upper
  have unit : (0 : ℚ) < 10 ^ x.place (count + 1) := zpow_pos (by norm_num) _
  have least : (x.shortest .even).value = x.below (count + 1) * 10 ^ x.place (count + 1) := lower
  have apart : (x.shortest .even).value < (x.shortest .greater).value := by
    rw [least, upper]
    linarith
  have bound : (x.shortest .greater).value < 2 ^ 96 := by
    have below : (0 : ℚ) ≤ x.below (count + 1) * 10 ^ x.place (count + 1) := by positivity
    rw [IsHalfway] at halfway
    rw [upper]
    linarith
  have plain := value_of_small (x.reads_shortest .greater) bound (place.trans upperPower) x.negative
  have pointed := value_of_small (x.reads_shortest .even) (apart.trans bound)
    (place.trans lowerPower) x.negative
  have near : -(Decimal.maxScale : Int) ≤ (x.shortest .even).leading := by
    have first := (x.shortest .even).power_le_leading
    have last := place.trans lowerPower
    simp only [Decimal.maxScale]
    omega
  rw [← DecimalForm.map_value_read_plain (x.reads_shortest .greater)] at plain
  rw [← DecimalForm.map_value_read_plain (x.reads_shortest .even),
    ← DecimalForm.pointed_agrees (x.reads_shortest .even) near] at pointed
  refine ⟨_, _, plain, pointed, ?_⟩
  split
  · exact fun same => apart.ne' (neg_injective same)
  · exact apart.ne'

end CatalogQuery.Binary.Finite
