import CatalogQuery.Proofs.Text.Scan
import CatalogQuery.Text.Digits
import Mathlib.Algebra.Group.Nat.Defs
import Mathlib.Data.List.Basic

namespace CatalogQuery.Text

def AllDigits (digits : List Char) : Prop := ∀ c ∈ digits, c.isDigit = true

theorem AllDigits.append {a b : List Char} (ha : AllDigits a) (hb : AllDigits b) :
    AllDigits (a ++ b) := by
  intro c hc
  rcases List.mem_append.mp hc with h | h
  · exact ha c h
  · exact hb c h

theorem AllDigits.tail {c : Char} {digits : List Char} (h : AllDigits (c :: digits)) :
    AllDigits digits := by
  intro d hd
  exact h d (List.mem_cons_of_mem c hd)

theorem AllDigits.head {c : Char} {digits : List Char} (h : AllDigits (c :: digits)) :
    c.isDigit = true :=
  h c List.mem_cons_self

def MadeOf (marks text : List Char) : Prop := ∀ c ∈ text, c.isDigit = true ∨ c ∈ marks

section
variable {marks marks' a b : List Char} {c : Char}

theorem AllDigits.madeOf (h : AllDigits a) : MadeOf marks a := fun c hc => .inl (h c hc)

@[simp] theorem madeOf_nil : MadeOf marks [] := by simp [MadeOf]

@[simp] theorem madeOf_append : MadeOf marks (a ++ b) ↔ MadeOf marks a ∧ MadeOf marks b := by
  simp only [MadeOf, List.mem_append]
  grind

@[simp] theorem madeOf_cons :
    MadeOf marks (c :: a) ↔ (c.isDigit = true ∨ c ∈ marks) ∧ MadeOf marks a := by
  simp [MadeOf]

theorem MadeOf.mono (h : MadeOf marks a) (sub : marks ⊆ marks') : MadeOf marks' a := by
  intro c hc
  exact (h c hc).imp_right fun mark => sub mark

theorem MadeOf.not_mem (h : MadeOf marks a) (digit : c.isDigit = false) (other : c ∉ marks) :
    c ∉ a := by
  intro hc
  rcases h c hc with hd | hm
  · rw [digit] at hd
    cases hd
  · exact other hm

end

theorem digit?_eq_some {c : Char} (h : c.isDigit = true) :
    digit? c = some (c.toNat - '0'.toNat) := by
  rw [digit?, if_pos h]

theorem digit?_eq_none {c : Char} (h : c.isDigit = false) : digit? c = none := by
  rw [digit?, if_neg (by simp [h])]

/-! ### Digits of a number -/

theorem digitsOf_ne_nil (n : Nat) : digitsOf n ≠ [] := Nat.toDigits_ne_nil

theorem allDigits_digitsOf (n : Nat) : AllDigits (digitsOf n) :=
  fun _ h => Nat.isDigit_of_mem_toDigits (by decide) (by decide) h

theorem length_digitsOf_le {n width : Nat} (hw : 0 < width) (h : n < 10 ^ width) :
    (digitsOf n).length ≤ width :=
  (Nat.length_toDigits_le_iff (by decide) hw).mpr h

theorem lt_pow_length_digitsOf (n : Nat) : n < 10 ^ (digitsOf n).length :=
  (Nat.length_toDigits_le_iff (by decide) (List.length_pos_iff.mpr (digitsOf_ne_nil n))).mp
    (Nat.le_refl _)

theorem pow_length_digitsOf_le {n : Nat} (h : n ≠ 0) : 10 ^ ((digitsOf n).length - 1) ≤ n := by
  by_cases single : (digitsOf n).length - 1 = 0
  · rw [single]
    omega
  · apply Nat.le_of_not_lt
    intro less
    have short := length_digitsOf_le (Nat.pos_of_ne_zero single) less
    omega

theorem digitsOf_mul_pow {n : Nat} (h : n ≠ 0) (places : Nat) :
    digitsOf (n * 10 ^ places) = digitsOf n ++ List.replicate places '0' := by
  induction places with
  | zero => simp
  | succ places ih =>
    have pos : 0 < n * 10 ^ places := Nat.mul_pos (Nat.pos_of_ne_zero h) (Nat.pow_pos (by decide))
    have next : digitsOf (10 * (n * 10 ^ places) + 0) = digitsOf (n * 10 ^ places) ++ ['0'] :=
      (Nat.toDigits_append_toDigits (by decide) pos (by decide)).symm
    rw [Nat.pow_succ, ← Nat.mul_assoc, Nat.mul_comm _ 10, ← Nat.add_zero (10 * _), next, ih,
      List.append_assoc, List.replicate_succ']

theorem allDigits_padded (width n : Nat) : AllDigits (padded width n) := by
  apply AllDigits.append
  · intro c hc
    rw [List.eq_of_mem_replicate hc]
    decide
  · exact allDigits_digitsOf n

theorem madeOf_padded (marks : List Char) (width n : Nat) : MadeOf marks (padded width n) :=
  (allDigits_padded width n).madeOf

theorem madeOf_integerText (n : Int) : MadeOf ['-'] (integerText n) := by
  have digits : MadeOf ['-'] (digitsOf n.natAbs) := (allDigits_digitsOf _).madeOf
  unfold integerText
  split
  · exact madeOf_cons.mpr ⟨.inr (by decide), digits⟩
  · exact digits

theorem padded_ne_nil (width n : Nat) : padded width n ≠ [] := by
  simp [padded, digitsOf_ne_nil]

theorem length_padded {width n : Nat} (hw : 0 < width) (h : n < 10 ^ width) :
    (padded width n).length = width := by
  have := length_digitsOf_le hw h
  simp only [padded, List.length_append, List.length_replicate]
  omega

theorem padded_two {n : Nat} (h : n < 100) :
    ∃ a b, padded 2 n = [a, b] ∧ a.isDigit = true ∧ b.isDigit = true := by
  have hd := allDigits_padded 2 n
  obtain ⟨a, b, pair⟩ := List.length_eq_two.mp (length_padded (by decide : 0 < 2) h)
  rw [pair] at hd
  exact ⟨a, b, pair, hd.head, hd.tail.head⟩

theorem le_length_padded (width n : Nat) : width ≤ (padded width n).length := by
  simp only [padded, List.length_append, List.length_replicate]
  omega

theorem ofDigitChars_padded (width n : Nat) : Nat.ofDigitChars 10 (padded width n) 0 = n := by
  rw [padded, Nat.ofDigitChars_append, Nat.ofDigitChars_replicate_zero, Nat.mul_zero]
  exact numberOf_digitsOf n

theorem numberOf_padded (width n : Nat) : numberOf (padded width n) = n :=
  ofDigitChars_padded width n

/-! ### Reading digits -/

/-- Digits up to the limit are taken whole if they reach it or no digit follows. -/
theorem takeDigits_append {limit : Nat} {digits rest : List Char} (hd : AllDigits digits)
    (hl : digits.length ≤ limit) (h : digits.length = limit ∨ Leaves Char.isDigit rest) :
    takeDigits limit (digits ++ rest) = (digits, rest) := by
  have taken : ((digits ++ rest).take limit).takeWhile Char.isDigit = digits := by
    rw [List.take_append]
    rw [List.take_of_length_le hl]
    apply takeWhile_append hd
    rcases h with h | h
    · rw [h, Nat.sub_self, List.take_zero]
      exact leaves_nil
    · cases rest with
      | nil =>
        rw [List.take_nil]
        exact leaves_nil
      | cons c rest =>
        cases limit - digits.length with
        | zero => exact leaves_nil
        | succ k =>
          rw [List.take_succ_cons]
          exact leaves_cons.mpr (leaves_cons.mp h)
  simp only [takeDigits, taken, List.drop_left]

theorem le_ofDigitChars (digits : List Char) (value : Nat) :
    value ≤ Nat.ofDigitChars 10 digits value := by
  rw [Nat.ofDigitChars_eq_ofDigitChars_zero]
  have : value * 1 ≤ value * 10 ^ digits.length := Nat.mul_le_mul_left _ (Nat.pow_pos (by decide))
  rw [Nat.mul_comm (10 ^ _)]
  omega

/-- Each further digit makes a number at most ten times as large. -/
theorem ofDigitChars_lt {digits : List Char} (hd : AllDigits digits) (value : Nat) :
    Nat.ofDigitChars 10 digits value < (value + 1) * 10 ^ digits.length := by
  induction digits generalizing value with
  | nil => simp
  | cons c digits ih =>
    have bounds := Char.isDigit_iff_toNat.mp hd.head
    simp only [Char.reduceToNat] at bounds
    have step : 10 * value + (c.toNat - '0'.toNat) + 1 ≤ (value + 1) * 10 := by
      simp only [Char.reduceToNat]
      omega
    rw [Nat.ofDigitChars_cons, List.length_cons, Nat.pow_succ', ← Nat.mul_assoc]
    exact Nat.lt_of_lt_of_le (ih hd.tail _) (Nat.mul_le_mul_right _ step)

theorem readBounded_eq {limit : Nat} {overflow : IntegerFault} {digits : List Char}
    (hd : AllDigits digits) {value : Nat} (h : Nat.ofDigitChars 10 digits value ≤ limit) :
    readBounded limit overflow digits value = .ok (Nat.ofDigitChars 10 digits value) := by
  induction digits generalizing value with
  | nil => rw [Nat.ofDigitChars_nil, readBounded]
  | cons c rest ih =>
    rw [Nat.ofDigitChars_cons] at h ⊢
    have fits := Nat.le_trans (le_ofDigitChars rest _) h
    simp only [readBounded, digit?_eq_some hd.head, fits, if_true]
    exact ih hd.tail h

theorem readNatural_digitsOf {limit n : Nat} (overflow : IntegerFault) (h : n ≤ limit) :
    readNatural limit overflow (digitsOf n) = .ok n := by
  have value : Nat.ofDigitChars 10 (digitsOf n) 0 = n := numberOf_digitsOf n
  have nonempty : (digitsOf n).isEmpty = false := by simp [digitsOf_ne_nil]
  rw [readNatural, nonempty, if_neg Bool.false_ne_true, readBounded_eq (allDigits_digitsOf n),
    value]
  rwa [value]

theorem readBounded_large {limit : Nat} {overflow : IntegerFault} {digits : List Char}
    (hd : AllDigits digits) {value : Nat} (bounded : value ≤ limit)
    (h : limit < Nat.ofDigitChars 10 digits value) :
    readBounded limit overflow digits value = .error overflow := by
  induction digits generalizing value with
  | nil => exact absurd h (Nat.not_lt.mpr bounded)
  | cons c rest ih =>
    rw [Nat.ofDigitChars_cons] at h
    simp only [readBounded, digit?_eq_some hd.head]
    split
    · rename_i fits
      exact ih hd.tail fits h
    · rfl

theorem readNatural_large {limit n : Nat} (overflow : IntegerFault) (h : limit < n) :
    readNatural limit overflow (digitsOf n) = .error overflow := by
  have value : Nat.ofDigitChars 10 (digitsOf n) 0 = n := numberOf_digitsOf n
  have nonempty : (digitsOf n).isEmpty = false := by simp [digitsOf_ne_nil]
  rw [readNatural, nonempty, if_neg Bool.false_ne_true]
  exact readBounded_large (allDigits_digitsOf n) (Nat.zero_le _) (value.symm ▸ h)

theorem readInt64_digitsOf (n : Nat) :
    readInt64 (digitsOf n) =
      (readNatural 9223372036854775807 .tooLarge (digitsOf n)).map fun n => Int64.ofInt n := by
  have hd := allDigits_digitsOf n
  -- Digits are no sign, so a number without sign is read as such.
  unfold readInt64
  split
  · exact absurd ‹_› (digitsOf_ne_nil n)
  · rw [‹digitsOf n = _›] at hd
    exact absurd hd.head (by decide)
  · rw [‹digitsOf n = _›] at hd
    exact absurd hd.head (by decide)
  · rfl

theorem readInt64_integerText (n : Int64) : readInt64 (integerText n.toInt) = .ok n := by
  have lower := n.le_toInt
  have upper := n.toInt_lt
  rw [integerText]
  by_cases neg : n.toInt < 0
  · have fits : n.toInt.natAbs ≤ 9223372036854775808 := by omega
    have back : -(n.toInt.natAbs : Int) = n.toInt := by omega
    rw [if_pos neg, readInt64, readNatural_digitsOf _ fits]
    change Except.ok (Int64.ofInt (-(n.toInt.natAbs : Int))) = _
    rw [back, Int64.ofInt_toInt]
  · have fits : n.toInt.natAbs ≤ 9223372036854775807 := by omega
    have back : (n.toInt.natAbs : Int) = n.toInt := by omega
    rw [if_neg neg, readInt64_digitsOf, readNatural_digitsOf _ fits]
    change Except.ok (Int64.ofInt (n.toInt.natAbs : Int)) = _
    rw [back, Int64.ofInt_toInt]

end CatalogQuery.Text
