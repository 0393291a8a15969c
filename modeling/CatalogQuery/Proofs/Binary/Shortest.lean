import CatalogQuery.Proofs.Binary.Forms
import Mathlib.Algebra.Order.Floor.Semifield
import Mathlib.Data.Rat.Floor
import Mathlib.Tactic.Linarith

/-!
# The shortest digits of a binary number

A double has a decimal with at most seventeen digits that reads back, so the search for the
shortest one always ends. Which of two equally near decimals is taken matters only if the number
is exactly halfway between them.
-/

namespace CatalogQuery.Binary

/-! ### Powers as fractions -/

theorem powerFraction_pos {base : Nat} (h : 0 < base) (exponent : Int) :
    0 < (powerFraction base exponent).1 ∧ 0 < (powerFraction base exponent).2 := by
  unfold powerFraction
  split
  · exact ⟨Nat.pow_pos h, Nat.one_pos⟩
  · exact ⟨Nat.one_pos, Nat.pow_pos h⟩

theorem powerFraction_eq (base : Nat) (exponent : Int) :
    ((powerFraction base exponent).1 : ℚ) / (powerFraction base exponent).2 = base ^ exponent := by
  unfold powerFraction
  by_cases whole : 0 ≤ exponent
  · obtain ⟨n, rfl⟩ := Int.eq_ofNat_of_zero_le whole
    simp [Nat.pow_eq]
  · obtain ⟨n, power⟩ : ∃ n : Nat, exponent = -n := ⟨(-exponent).toNat, by omega⟩
    subst power
    rw [if_neg whole]
    simp [Nat.pow_eq]

theorem powerFraction_two (exponent : Int) :
    ((powerFraction 2 exponent).1 : ℚ) / (powerFraction 2 exponent).2 = 2 ^ exponent :=
  powerFraction_eq 2 exponent

theorem powerFraction_ten (exponent : Int) :
    ((powerFraction 10 exponent).1 : ℚ) / (powerFraction 10 exponent).2 = 10 ^ exponent :=
  powerFraction_eq 10 exponent

/-- Fractions are compared by cross multiplication. -/
theorem cross_le {a b : Nat} {s t : Nat × Nat} (hs : 0 < s.2) (ht : 0 < t.2) :
    a * (s.1 * t.2) ≤ b * t.1 * s.2 ↔ (a : ℚ) * (s.1 / s.2) ≤ b * (t.1 / t.2) := by
  have hs' : (0 : ℚ) < s.2 := by exact_mod_cast hs
  have ht' : (0 : ℚ) < t.2 := by exact_mod_cast ht
  rw [← mul_div_assoc, ← mul_div_assoc, div_le_div_iff₀ hs' ht']
  norm_cast
  rw [← Nat.mul_assoc]

theorem cross_lt {a b : Nat} {s t : Nat × Nat} (hs : 0 < s.2) (ht : 0 < t.2) :
    a * (s.1 * t.2) < b * t.1 * s.2 ↔ (a : ℚ) * (s.1 / s.2) < b * (t.1 / t.2) := by
  have hs' : (0 : ℚ) < s.2 := by exact_mod_cast hs
  have ht' : (0 : ℚ) < t.2 := by exact_mod_cast ht
  rw [← mul_div_assoc, ← mul_div_assoc, div_lt_div_iff₀ hs' ht']
  norm_cast
  rw [← Nat.mul_assoc]

namespace Finite

variable {f : BinaryFormat} {x : Finite f}

def magnitude (x : Finite f) : ℚ := x.significand * 2 ^ x.exponent

theorem fraction_eq (x : Finite f) : (x.fraction.1 : ℚ) / x.fraction.2 = x.magnitude := by
  rw [fraction, magnitude, Nat.cast_mul, mul_div_assoc, powerFraction_two]

theorem fraction_pos (x : Finite f) : 0 < x.fraction.2 := (powerFraction_pos (by decide) _).2

/-! ### The decimals that read back -/

/-- The boundary below a number, between it and the next. -/
def lowest (x : Finite f) : ℚ := x.quarters.1 * 2 ^ (x.exponent - 2)

/-- The boundary above a number. -/
def highest (x : Finite f) : ℚ := x.quarters.2.2 * 2 ^ (x.exponent - 2)

/-- Decimals between the boundaries read back, and the boundaries of an even significand do. -/
theorem readsBack_iff (x : Finite f) (d : DecimalForm) :
    x.readsBack d = true ↔ if x.significand % 2 = 0 then x.lowest ≤ d.value ∧ d.value ≤ x.highest
      else x.lowest < d.value ∧ d.value < x.highest := by
  have two := (powerFraction_pos (by decide : 0 < 2) (x.exponent - 2)).2
  have ten := (powerFraction_pos (by decide : 0 < 10) d.power).2
  rw [lowest, highest, DecimalForm.value, ← powerFraction_two, ← powerFraction_ten]
  have unfolded : x.readsBack d =
      let value := d.coefficient * (powerFraction 10 d.power).1 *
        (powerFraction 2 (x.exponent - 2)).2
      let scale := (powerFraction 2 (x.exponent - 2)).1 * (powerFraction 10 d.power).2
      if x.significand % 2 = 0 then x.quarters.1 * scale ≤ value && value ≤ x.quarters.2.2 * scale
      else x.quarters.1 * scale < value && value < x.quarters.2.2 * scale := rfl
  rw [unfolded]
  dsimp only
  split
  · rw [Bool.and_eq_true, decide_eq_true_eq, decide_eq_true_eq, cross_le two ten, ← Nat.not_lt,
      cross_lt two ten, not_lt]
  · rw [Bool.and_eq_true, decide_eq_true_eq, decide_eq_true_eq, cross_lt two ten, ← Nat.not_le,
      cross_le two ten, not_le]

theorem readsBack_of_inside {d : DecimalForm} (low : x.lowest < d.value)
    (high : d.value < x.highest) : x.readsBack d = true := by
  rw [readsBack_iff]
  split
  · exact ⟨low.le, high.le⟩
  · exact ⟨low, high⟩

/-! ### The first digit -/

/-- The first digit of a fraction that is one or more is that of its whole part. -/
theorem first_digit_of_le {numerator denominator : Nat} (pos : 0 < denominator)
    (h : denominator ≤ numerator) {places : Nat}
    (length : (Text.digitsOf (numerator / denominator)).length = places + 1) :
    (10 : ℚ) ^ (places : Int) ≤ numerator / denominator ∧
      (numerator : ℚ) / denominator < 10 ^ ((places : Int) + 1) := by
  have whole : numerator / denominator ≠ 0 := (Nat.div_pos h pos).ne'
  have least := Text.pow_length_digitsOf_le whole
  have most := Text.lt_pow_length_digitsOf (numerator / denominator)
  rw [length] at least most
  have pos' : (0 : ℚ) < denominator := by exact_mod_cast pos
  rw [le_div_iff₀ pos', div_lt_iff₀ pos']
  constructor
  · have scaled := (Nat.le_div_iff_mul_le pos).mp least
    exact_mod_cast scaled
  · have scaled := (Nat.div_lt_iff_lt_mul pos).mp most
    exact_mod_cast scaled

/-- The first digit of a fraction below one is told by the whole part of its inverse. -/
theorem first_digit_of_lt {numerator denominator : Nat} (pos : 0 < numerator)
    (h : numerator < denominator) {places : Nat}
    (length : (Text.digitsOf ((denominator + numerator - 1) / numerator - 1)).length = places + 1) :
    (10 : ℚ) ^ (-((places + 1 : Nat) : Int)) ≤ numerator / denominator ∧
      (numerator : ℚ) / denominator < 10 ^ (-((places + 1 : Nat) : Int) + 1) := by
  -- The digits are those of the inverse, rounded up, less one.
  obtain ⟨n, inverse⟩ : ∃ n, (denominator + numerator - 1) / numerator = n + 1 :=
    Nat.exists_eq_succ_of_ne_zero (Nat.div_pos (by omega) pos).ne'
  rw [inverse, Nat.add_sub_cancel] at length
  have under : (n + 1) * numerator ≤ denominator + numerator - 1 :=
    (Nat.le_div_iff_mul_le pos).mp inverse.ge
  have beyond : denominator + numerator - 1 < (n + 2) * numerator :=
    (Nat.div_lt_iff_lt_mul pos).mp (by omega)
  rw [Nat.add_mul] at under beyond
  have nonzero : n ≠ 0 := by
    rintro rfl
    omega
  have least := Text.pow_length_digitsOf_le nonzero
  have most := Text.lt_pow_length_digitsOf n
  rw [length] at least most
  have above : denominator ≤ 10 ^ (places + 1) * numerator := calc
    denominator ≤ (n + 1) * numerator := by rw [Nat.add_mul]; omega
    _ ≤ 10 ^ (places + 1) * numerator := Nat.mul_le_mul_right _ most
  have beneath : 10 ^ places * numerator < denominator := calc
    10 ^ places * numerator ≤ n * numerator := Nat.mul_le_mul_right _ least
    _ < denominator := by omega
  have pos' : (0 : ℚ) < denominator := by exact_mod_cast Nat.lt_trans pos h
  have shifted : -((places + 1 : Nat) : Int) + 1 = -(places : Int) := by omega
  rw [shifted, zpow_neg, zpow_neg, zpow_natCast, zpow_natCast, le_div_iff₀ pos', div_lt_iff₀ pos',
    inv_mul_le_iff₀ (by positivity), lt_inv_mul_iff₀ (by positivity)]
  exact ⟨by exact_mod_cast above, by exact_mod_cast beneath⟩

/-- The exponent of the first digit of a number. -/
theorem floorLog10_spec (nonzero : x.significand ≠ 0) :
    10 ^ x.floorLog10 ≤ x.magnitude ∧ x.magnitude < 10 ^ (x.floorLog10 + 1) := by
  have numerator : 0 < x.fraction.1 :=
    Nat.mul_pos (Nat.pos_of_ne_zero nonzero) (powerFraction_pos (by decide) _).1
  have unfolded : x.floorLog10 = if x.fraction.2 ≤ x.fraction.1 then
      ((Text.digitsOf (x.fraction.1 / x.fraction.2)).length : Int) - 1
    else -((Text.digitsOf ((x.fraction.2 + x.fraction.1 - 1) / x.fraction.1 - 1)).length : Int) :=
    rfl
  rw [unfolded, ← fraction_eq]
  by_cases whole : x.fraction.2 ≤ x.fraction.1
  · obtain ⟨places, length⟩ := Nat.exists_eq_succ_of_ne_zero
      (List.length_pos_iff.mpr (Text.digitsOf_ne_nil (x.fraction.1 / x.fraction.2))).ne'
    have spec := first_digit_of_le x.fraction_pos whole length
    rw [if_pos whole, length, Nat.succ_eq_add_one, Nat.cast_succ, add_sub_cancel_right]
    exact spec
  · obtain ⟨places, length⟩ := Nat.exists_eq_succ_of_ne_zero (List.length_pos_iff.mpr
      (Text.digitsOf_ne_nil ((x.fraction.2 + x.fraction.1 - 1) / x.fraction.1 - 1))).ne'
    rw [if_neg whole, length]
    exact first_digit_of_lt numerator (Nat.lt_of_not_le whole) length

/-! ### The neighbours on a grid -/

/-- The place of the last of some digits. -/
def place (x : Finite f) (count : Nat) : Int := x.floorLog10 - count + 1

/-- The coefficient of the lower neighbour with some digits. -/
def below (x : Finite f) (count : Nat) : Nat :=
  x.fraction.1 * (powerFraction 10 (x.place count)).2 /
    (x.fraction.2 * (powerFraction 10 (x.place count)).1)

/-- Where the number stands on the grid of decimals with some digits. -/
theorem grid_eq (x : Finite f) (count : Nat) :
    ((x.fraction.1 * (powerFraction 10 (x.place count)).2 : Nat) : ℚ) /
      ((x.fraction.2 * (powerFraction 10 (x.place count)).1 : Nat) : ℚ) =
      x.magnitude / 10 ^ x.place count := by
  rw [← fraction_eq, ← powerFraction_ten, div_div_div_eq]
  push_cast
  rfl

theorem below_spec (x : Finite f) (count : Nat) :
    x.below count * 10 ^ x.place count ≤ x.magnitude ∧
      x.magnitude < (x.below count + 1) * 10 ^ x.place count := by
  have pos : (0 : ℚ) < 10 ^ x.place count := zpow_pos (by norm_num) _
  have floor : x.below count = ⌊x.magnitude / 10 ^ x.place count⌋₊ := by
    rw [← grid_eq, Nat.floor_div_eq_div, below]
  have nonneg : 0 ≤ x.magnitude / 10 ^ x.place count := by
    rw [← grid_eq]
    positivity
  rw [floor, ← le_div_iff₀ pos, ← div_lt_iff₀ pos]
  exact ⟨Nat.floor_le nonneg, Nat.lt_floor_add_one _⟩

/-- The neighbour at or below the number. -/
def lower (x : Finite f) (count : Nat) : DecimalForm := ⟨x.below count, x.place count⟩

def upper (x : Finite f) (count : Nat) : DecimalForm := ⟨x.below count + 1, x.place count⟩

theorem value_upper (x : Finite f) (count : Nat) :
    (x.upper count).value = (x.below count + 1) * 10 ^ x.place count := by
  rw [DecimalForm.value, upper]
  push_cast
  rfl

/-- The number is exactly between its neighbours. -/
def IsHalfway (x : Finite f) (count : Nat) : Prop :=
  2 * x.magnitude = (2 * x.below count + 1) * 10 ^ x.place count

theorem isHalfway_iff (x : Finite f) (count : Nat) :
    x.IsHalfway count ↔ 2 * x.fraction.1 * (powerFraction 10 (x.place count)).2 =
      (2 * x.below count + 1) * (x.fraction.2 * (powerFraction 10 (x.place count)).1) := by
  have tens : (0 : ℚ) < 10 ^ x.place count := zpow_pos (by norm_num) _
  have scale : (0 : ℚ) < ((x.fraction.2 * (powerFraction 10 (x.place count)).1 : Nat) : ℚ) := by
    exact_mod_cast Nat.mul_pos x.fraction_pos (powerFraction_pos (by decide) _).1
  rw [IsHalfway, ← div_eq_iff tens.ne', mul_div_assoc, ← grid_eq, ← mul_div_assoc,
    div_eq_iff scale.ne', Nat.mul_assoc]
  norm_cast

theorem withDigits?_eq (x : Finite f) (tie : Tie) (count : Nat) :
    x.withDigits? tie count =
      match x.readsBack (x.lower count), x.readsBack (x.upper count) with
      | true, true =>
        let twice := 2 * x.fraction.1 * (powerFraction 10 (x.place count)).2
        let middle := (2 * x.below count + 1) *
          (x.fraction.2 * (powerFraction 10 (x.place count)).1)
        if twice < middle ∨ twice = middle ∧ tie.takesLower (x.below count) then
          some (x.lower count)
        else some (x.upper count)
      | true, false => some (x.lower count)
      | false, true => some (x.upper count)
      | false, false => none := rfl

theorem withDigits?_isSome (x : Finite f) (tie : Tie) (count : Nat) :
    (x.withDigits? tie count).isSome =
      (x.readsBack (x.lower count) || x.readsBack (x.upper count)) := by
  rw [withDigits?_eq]
  cases x.readsBack (x.lower count) <;> cases x.readsBack (x.upper count)
  · rfl
  · rfl
  · rfl
  · dsimp only
    split <;> rfl

theorem of_withDigits? {tie : Tie} {count : Nat} {d : DecimalForm}
    (h : x.withDigits? tie count = some d) :
    (d = x.lower count ∨ d = x.upper count) ∧ x.readsBack d = true := by
  rw [withDigits?_eq] at h
  cases low : x.readsBack (x.lower count) <;> cases high : x.readsBack (x.upper count) <;>
    rw [low, high] at h <;> dsimp only at h
  · cases h
  · cases h
    exact ⟨.inr rfl, high⟩
  · cases h
    exact ⟨.inl rfl, low⟩
  · split at h <;> cases h
    · exact ⟨.inl rfl, low⟩
    · exact ⟨.inr rfl, high⟩

/-- Only a number exactly between its neighbours has two nearest decimals. -/
theorem withDigits?_of_ne {count : Nat}
    (h : x.withDigits? .greater count ≠ x.withDigits? .even count) :
    x.IsHalfway count ∧ x.withDigits? .even count = some (x.lower count) ∧
      x.withDigits? .greater count = some (x.upper count) := by
  rw [isHalfway_iff]
  rw [withDigits?_eq, withDigits?_eq] at h ⊢
  cases low : x.readsBack (x.lower count) <;> cases high : x.readsBack (x.upper count) <;>
    rw [low, high] at h <;> dsimp only at h ⊢
  · exact absurd rfl h
  · exact absurd rfl h
  · exact absurd rfl h
  · have never : Tie.greater.takesLower (x.below count) = false := rfl
    simp only [never, Bool.false_eq_true, and_false, or_false] at h ⊢
    split at h
    · rename_i nearer
      rw [if_pos (.inl nearer)] at h
      exact absurd rfl h
    · rename_i notNearer
      split at h
      · rename_i even
        have halfway := even.resolve_left notNearer
        exact ⟨halfway.1, if_pos even, if_neg notNearer⟩
      · exact absurd rfl h

/-! ### Seventeen digits -/

/-- The boundaries are half a unit away, or a quarter below a power of two. -/
theorem boundaries_eq (nonzero : x.significand ≠ 0) :
    x.highest = x.magnitude + 2 ^ x.exponent / 2 ∧
      x.lowest = x.magnitude - (if x.significand = 2 ^ (f.precision - 1) ∧
        f.minExponent < x.exponent then 1 else 2) * 2 ^ x.exponent / 4 := by
  have quarter : (2 : ℚ) ^ (x.exponent - 2) = 2 ^ x.exponent / 4 := by
    rw [zpow_sub₀ (by norm_num)]
    norm_num
  have above : x.quarters.2.2 = 4 * x.significand + 2 := rfl
  have beneath : x.quarters.1 = 4 * x.significand - if x.significand = 2 ^ (f.precision - 1) ∧
      f.minExponent < x.exponent then 1 else 2 := rfl
  rw [highest, lowest, magnitude, quarter, above, beneath, Nat.cast_sub (by split <;> omega)]
  push_cast
  constructor <;> ring

/-- With seventeen digits the grid is finer than the boundaries are far. -/
theorem grid_lt_boundaries {x : Finite .double} (nonzero : x.significand ≠ 0) :
    (10 : ℚ) ^ x.place mostDigits / 2 < x.highest - x.magnitude ∧
      (10 : ℚ) ^ x.place mostDigits / 2 < x.magnitude - x.lowest := by
  obtain ⟨high, low⟩ := boundaries_eq nonzero
  have unit : (0 : ℚ) < 2 ^ x.exponent := zpow_pos (by norm_num) _
  have fine : (10 : ℚ) ^ x.place mostDigits * 10 ^ 16 ≤ x.significand * 2 ^ x.exponent := by
    have place : x.place mostDigits = x.floorLog10 - 16 := by
      simp only [place, mostDigits]
      omega
    have shifted : (10 : ℚ) ^ x.place mostDigits * 10 ^ 16 = 10 ^ x.floorLog10 := by
      rw [place, zpow_sub₀ (by norm_num)]
      norm_num
    rw [shifted]
    exact (floorLog10_spec nonzero).1
  have bits : (x.significand : ℚ) < 2 ^ 53 := by exact_mod_cast x.canonical.1
  rw [high, low]
  constructor
  · nlinarith only [unit, fine, bits]
  · split
    · rename_i least
      have half : (x.significand : ℚ) = 2 ^ 52 := by exact_mod_cast least.1
      nlinarith only [unit, fine, half]
    · nlinarith only [unit, fine, bits]

/-- **Seventeen digits are enough**: the nearer neighbour reads back. -/
theorem withDigits?_seventeen {x : Finite .double} (nonzero : x.significand ≠ 0) (tie : Tie) :
    (x.withDigits? tie mostDigits).isSome = true := by
  obtain ⟨high, low⟩ := grid_lt_boundaries nonzero
  obtain ⟨least, greatest⟩ := x.below_spec mostDigits
  have lower : (x.lower mostDigits).value = x.below mostDigits * 10 ^ x.place mostDigits := rfl
  have upper := x.value_upper mostDigits
  have unit : (0 : ℚ) < 10 ^ x.place mostDigits := zpow_pos (by norm_num) _
  rw [withDigits?_isSome, Bool.or_eq_true]
  by_cases near : x.magnitude - (x.lower mostDigits).value ≤ 10 ^ x.place mostDigits / 2
  · exact .inl (readsBack_of_inside (by linarith) (by linarith))
  · exact .inr (readsBack_of_inside (by linarith) (by linarith))

end Finite

/-! ### Zeros at the end -/

namespace DecimalForm

theorem trimmed_succ (fuel : Nat) (d : DecimalForm) : d.trimmed (fuel + 1) =
    if d.coefficient ≠ 0 ∧ d.coefficient % 10 = 0 then
      trimmed fuel ⟨d.coefficient / 10, d.power + 1⟩
    else d := rfl

/-- Taking zeros away from the end of a number changes only its form. -/
theorem trimmed_spec (fuel : Nat) (d : DecimalForm) :
    (d.trimmed fuel).value = d.value ∧ (d.trimmed fuel).coefficient ≤ d.coefficient ∧
      d.power ≤ (d.trimmed fuel).power := by
  induction fuel generalizing d with
  | zero => exact ⟨rfl, Nat.le_refl _, le_refl _⟩
  | succ fuel ih =>
    rw [trimmed_succ]
    split
    · rename_i zero
      obtain ⟨value, coefficient, power⟩ := ih ⟨d.coefficient / 10, d.power + 1⟩
      refine ⟨value.trans ?_, Nat.le_trans coefficient (Nat.div_le_self _ _), by
        simp only at power
        omega⟩
      have tenth : (d.coefficient : ℚ) = (d.coefficient / 10 : Nat) * 10 := by
        exact_mod_cast (Nat.div_mul_cancel (Nat.dvd_of_mod_eq_zero zero.2)).symm
      rw [DecimalForm.value, DecimalForm.value, tenth, zpow_add_one₀ (by norm_num)]
      ring
    · exact ⟨rfl, Nat.le_refl _, le_refl _⟩

theorem value_ne_zero {d : DecimalForm} : d.value ≠ 0 ↔ d.coefficient ≠ 0 := by
  have power : (10 : ℚ) ^ d.power ≠ 0 := zpow_ne_zero _ (by norm_num)
  rw [value, mul_ne_zero_iff_right power, Nat.cast_ne_zero]

end DecimalForm

/-! ### The search -/

/-- Searches that succeed in the same places end in the same one. -/
theorem findSome?_common {ι α β : Type} {f : ι → α → Option β} {p : α → Bool}
    (same : ∀ i a, (f i a).isSome = p a) {l : List α} (h : ∃ a ∈ l, p a = true) :
    ∃ a ∈ l, p a = true ∧ ∀ i, l.findSome? (f i) = f i a := by
  induction l with
  | nil => simp at h
  | cons b l ih =>
    by_cases first : p b = true
    · refine ⟨b, List.mem_cons_self, first, fun i => ?_⟩
      obtain ⟨c, found⟩ := Option.isSome_iff_exists.mp ((same i b).trans first)
      rw [List.findSome?_cons_of_isSome (by rw [found]; rfl)]
    · obtain ⟨a, member, holds⟩ := h
      have later : a ∈ l := (List.mem_cons.mp member).resolve_left fun same => first (same ▸ holds)
      obtain ⟨a, member, holds, ends⟩ := ih ⟨a, later, holds⟩
      refine ⟨a, List.mem_cons_of_mem b member, holds, fun i => ?_⟩
      have none : f i b = none := by
        rw [← Option.not_isSome_iff_eq_none, same]
        exact first
      rw [List.findSome?_cons_of_isNone (by rw [none]; rfl), ends]

namespace Finite

variable {x : Finite .double}

theorem below_bounds (nonzero : x.significand ≠ 0) (count : Nat) :
    x.below (count + 1) ≠ 0 ∧ x.below (count + 1) < 10 ^ (count + 1) := by
  obtain ⟨least, greatest⟩ := x.below_spec (count + 1)
  obtain ⟨first, next⟩ := floorLog10_spec nonzero
  have unit : (0 : ℚ) < 10 ^ x.place (count + 1) := zpow_pos (by norm_num) _
  have low : (10 : ℚ) ^ x.floorLog10 = 10 ^ count * 10 ^ x.place (count + 1) := by
    rw [← zpow_natCast, ← zpow_add₀ (by norm_num)]
    congr 1
    simp only [place]
    omega
  have high : (10 : ℚ) ^ (x.floorLog10 + 1) = 10 ^ (count + 1) * 10 ^ x.place (count + 1) := by
    rw [← zpow_natCast, ← zpow_add₀ (by norm_num)]
    congr 1
    simp only [place]
    omega
  have beyond := lt_of_mul_lt_mul_right (low ▸ lt_of_le_of_lt first greatest) unit.le
  have under := lt_of_mul_lt_mul_right (high ▸ lt_of_le_of_lt least next) unit.le
  constructor
  · have grown : 10 ^ count < x.below (count + 1) + 1 := by exact_mod_cast beyond
    have pos : 0 < 10 ^ count := Nat.pow_pos (by decide)
    omega
  · exact_mod_cast under

/-- Some digits suffice, and as many whichever of two decimals is taken. -/
theorem shortest_spec (nonzero : x.significand ≠ 0) :
    ∃ count < mostDigits, ∀ tie, ∃ d, x.withDigits? tie (count + 1) = some d ∧
      x.shortest tie = d.trimmed mostDigits := by
  have enough := withDigits?_seventeen nonzero .even
  rw [withDigits?_isSome] at enough
  obtain ⟨count, member, holds, ends⟩ := findSome?_common
    (f := fun tie count => x.withDigits? tie (count + 1))
    (fun tie count => x.withDigits?_isSome tie (count + 1)) (l := List.range mostDigits)
    ⟨mostDigits - 1, by decide, enough⟩
  refine ⟨count, List.mem_range.mp member, fun tie => ?_⟩
  have some := (x.withDigits?_isSome tie (count + 1)).trans holds
  obtain ⟨d, found⟩ := Option.isSome_iff_exists.mp some
  refine ⟨d, found, ?_⟩
  rw [shortest, if_neg nonzero, ends tie, found]

theorem shortest_zero (zero : x.significand = 0) (tie : Tie) : x.shortest tie = ⟨0, 0⟩ := by
  rw [shortest, if_pos zero]

/-- **The shortest digits read back.** -/
theorem readsBack_shortest (x : Finite .double) (tie : Tie) :
    x.readsBack (x.shortest tie) = true := by
  by_cases zero : x.significand = 0
  · have quarters : x.quarters.1 = 0 := by
      have low : x.quarters.1 ≤ 4 * x.significand := Nat.sub_le _ _
      omega
    have high : 0 ≤ x.highest := mul_nonneg (Nat.cast_nonneg _) (zpow_nonneg (by norm_num) _)
    rw [shortest_zero zero, readsBack_iff, if_pos (by rw [zero]), lowest, quarters]
    simpa [DecimalForm.value] using high
  · obtain ⟨count, -, spec⟩ := shortest_spec zero
    obtain ⟨d, found, same⟩ := spec tie
    have back := (of_withDigits? found).2
    rw [readsBack_iff] at back ⊢
    rw [same, (DecimalForm.trimmed_spec mostDigits d).1]
    exact back

/-- **The shortest digits are those of a decimal.** -/
theorem reads_shortest (x : Finite .double) (tie : Tie) : (x.shortest tie).Reads := by
  by_cases zero : x.significand = 0
  · rw [shortest_zero zero]
    exact ⟨by decide, fun _ => rfl⟩
  · obtain ⟨count, few, spec⟩ := shortest_spec zero
    obtain ⟨d, found, same⟩ := spec tie
    obtain ⟨nonzero, bound⟩ := below_bounds zero count
    obtain ⟨value, coefficient, -⟩ := d.trimmed_spec mostDigits
    have least : d.coefficient ≠ 0 := by
      rcases (of_withDigits? found).1 with rfl | rfl
      · exact nonzero
      · exact Nat.succ_ne_zero _
    have greatest : d.coefficient ≤ 10 ^ (count + 1) := by
      rcases (of_withDigits? found).1 with rfl | rfl
      · exact bound.le
      · exact bound
    rw [same]
    refine ⟨?_, fun none => ?_⟩
    · calc (d.trimmed mostDigits).coefficient ≤ d.coefficient := coefficient
        _ ≤ 10 ^ (count + 1) := greatest
        _ ≤ 10 ^ mostDigits := Nat.pow_le_pow_right (by decide) few
        _ < Decimal.limit := by decide
    · have some : (d.trimmed mostDigits).value ≠ 0 := value ▸ DecimalForm.value_ne_zero.mpr least
      exact absurd none (DecimalForm.value_ne_zero.mp some)

/-- **The two forms differ only for a number exactly between two decimals**: one is the lower
of them and the other the upper one. -/
theorem shortest_of_ne (h : x.shortest .greater ≠ x.shortest .even) :
    x.significand ≠ 0 ∧ ∃ count < mostDigits, x.IsHalfway (count + 1) ∧
      x.shortest .even = (x.lower (count + 1)).trimmed mostDigits ∧
      x.shortest .greater = (x.upper (count + 1)).trimmed mostDigits := by
  have nonzero : x.significand ≠ 0 := by
    intro zero
    rw [shortest_zero zero, shortest_zero zero] at h
    exact h rfl
  obtain ⟨count, few, spec⟩ := shortest_spec nonzero
  obtain ⟨even, foundEven, sameEven⟩ := spec .even
  obtain ⟨greater, foundGreater, sameGreater⟩ := spec .greater
  have other : x.withDigits? .greater (count + 1) ≠ x.withDigits? .even (count + 1) := by
    intro same
    rw [foundEven, foundGreater] at same
    rw [sameEven, sameGreater, Option.some.inj same] at h
    exact h rfl
  obtain ⟨halfway, lower, upper⟩ := withDigits?_of_ne other
  rw [foundEven] at lower
  rw [foundGreater] at upper
  rw [sameEven, sameGreater, Option.some.inj lower, Option.some.inj upper]
  exact ⟨nonzero, count, few, halfway, rfl, rfl⟩

end Finite
end CatalogQuery.Binary
