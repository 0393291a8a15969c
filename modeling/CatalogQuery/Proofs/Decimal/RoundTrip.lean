import CatalogQuery.Decimal.Printer
import CatalogQuery.Decimal.Reader
import CatalogQuery.Proofs.Text.Digits
import Mathlib.Tactic.Ring

namespace CatalogQuery.Decimal

def isNegativeZero (d : Decimal) : Bool := d.negative && d.coefficient == 0

/-- The decimal with one place, if it has none and there is room for one. -/
def widened (d : Decimal) : Decimal :=
  if h : d.scale = 0 ∧ 10 * d.coefficient < limit then
    ⟨d.negative, 10 * d.coefficient, 1, h.2, by decide⟩
  else d

def unsignedZero (d : Decimal) : Decimal := { d with negative := d.negative && d.coefficient != 0 }

/-- What the query text of a decimal is read as. -/
def normal (d : Decimal) : Decimal := d.widened.unsignedZero

/-! ### Reading -/

/-- Digits that fit are all read, whatever comes after them. -/
theorem Reading.read_digits {digits : List Char} (hd : Text.AllDigits digits) (r : Reading)
    (hc : Nat.ofDigitChars 10 digits r.coefficient < limit)
    (hs : (if r.point then r.scale + digits.length else r.scale) ≤ maxScale)
    (rest : List Char) :
    r.read (digits ++ rest) =
      Reading.read ⟨Nat.ofDigitChars 10 digits r.coefficient,
        if r.point then r.scale + digits.length else r.scale, r.point,
        r.started || !digits.isEmpty, hc, hs⟩ rest := by
  induction digits generalizing r with
  | nil => cases r; simp
  | cons c digits ih =>
    have hc' := hc
    rw [Nat.ofDigitChars_cons] at hc'
    have fits : r.Fits (c.toNat - '0'.toNat) := by
      refine ⟨Nat.lt_of_le_of_lt (Text.le_ofDigitChars digits _) hc', ?_⟩
      simp only [nextScale]
      simp only [List.length_cons] at hs
      split at hs
      · simp_all
        omega
      · simp_all
    have step : r.read (c :: (digits ++ rest)) = (r.push _ fits).read (digits ++ rest) := by
      rw [Reading.read]
      simp only [Text.digit?_eq_some hd.head, dif_pos fits]
    have hs' : (if (r.push _ fits).point then (r.push _ fits).scale + digits.length
        else (r.push _ fits).scale) ≤ maxScale := by
      simp only [push, nextScale, List.length_cons] at hs ⊢
      split at hs
      · simp_all
        omega
      · simp_all
    rw [List.cons_append, step, ih hd.tail (r.push _ fits) hc' hs']
    simp only [push, nextScale, Nat.ofDigitChars_cons, List.length_cons, List.isEmpty_cons,
      Bool.not_false, Bool.or_true, Bool.true_or]
    congr 2
    split <;> omega

theorem Reading.read_point (r : Reading) (hp : r.point = false) (rest : List Char) :
    r.read ('.' :: rest) =
      Reading.read ⟨r.coefficient, r.scale, true, r.started, r.coefficient_lt, r.scale_le⟩
        rest := by
  have point : Text.digit? '.' = none := Text.digit?_eq_none (by decide)
  rw [Reading.read]
  simp only [point, hp, and_self, if_true]

/-- Digits, a point and further digits are read as the number of all digits. -/
theorem Reading.read_parts {whole places : List Char} (hw : Text.AllDigits whole)
    (hp : Text.AllDigits places) (hne : whole ≠ []) (rest : List Char)
    (hc : Nat.ofDigitChars 10 (whole ++ places) 0 < limit) (hs : places.length ≤ maxScale) :
    Reading.start.read (whole ++ '.' :: (places ++ rest)) =
      Reading.read ⟨Nat.ofDigitChars 10 (whole ++ places) 0, places.length, true, true, hc, hs⟩
        rest := by
  have joined := Nat.ofDigitChars_append (b := 10) (l := whole) (m := places) 0
  have hc' : Nat.ofDigitChars 10 whole Reading.start.coefficient < limit :=
    Nat.lt_of_le_of_lt (Text.le_ofDigitChars places _) (joined ▸ hc)
  have started : (!whole.isEmpty) = true := by simpa using hne
  rw [Reading.read_digits hw Reading.start hc' (Nat.zero_le _), Reading.read_point _ rfl]
  rw [Reading.read_digits hp _ (joined ▸ hc) (by simpa [start] using hs)]
  simp [joined, start, started]

/-! ### The written form -/

/-- The text of a decimal without its sign. -/
def bodyText (d : Decimal) : List Char :=
  if d.scale = 0 then Text.digitsOf d.coefficient ++ ['.', '0']
  else magnitudeText d.coefficient d.scale

theorem queryText_eq (d : Decimal) :
    d.queryText = if d.negative then '-' :: d.bodyText else d.bodyText := by
  unfold queryText bodyText text
  by_cases hs : d.scale = 0
  · by_cases hn : d.negative = true <;> simp [hs, hn, magnitudeText]
  · simp only [hs, if_false]

/-- A decimal with places is written as digits, a point and as many digits as it
has places. -/
theorem magnitudeText_parts (coefficient : Nat) {scale : Nat} (hs : scale ≠ 0) :
    ∃ whole places, magnitudeText coefficient scale = whole ++ '.' :: places ∧
      whole ++ places = Text.padded (scale + 1) coefficient ∧ places.length = scale ∧
      whole ≠ [] := by
  have long := Text.le_length_padded (scale + 1) coefficient
  refine ⟨_, _, by rw [magnitudeText, if_neg hs], List.take_append_drop _ _, ?_, ?_⟩
  · rw [List.length_drop]
    omega
  · intro h
    have := congrArg List.length h
    rw [List.length_take, List.length_nil] at this
    omega

theorem bodyText_parts (d : Decimal) :
    ∃ whole places, d.bodyText = whole ++ '.' :: places ∧ Text.AllDigits whole ∧
      Text.AllDigits places ∧ whole ≠ [] := by
  unfold bodyText
  by_cases hs : d.scale = 0
  · rw [if_pos hs]
    exact ⟨_, ['0'], rfl, Text.allDigits_digitsOf _, by simp [Text.AllDigits],
      Text.digitsOf_ne_nil _⟩
  · obtain ⟨whole, places, htext, hjoin, -, hne⟩ := magnitudeText_parts d.coefficient hs
    have all : Text.AllDigits (whole ++ places) := hjoin ▸ Text.allDigits_padded _ _
    rw [if_neg hs]
    exact ⟨whole, places, htext, fun c hc => all c (List.mem_append_left _ hc),
      fun c hc => all c (List.mem_append_right _ hc), hne⟩

/-- What reading the text without its sign leaves. -/
theorem read_bodyText (d : Decimal) :
    ∃ r, Reading.start.read d.bodyText = .ok r ∧ r.coefficient = d.widened.coefficient ∧
      r.scale = d.widened.scale := by
  unfold bodyText widened
  by_cases hs : d.scale = 0
  · have value : Nat.ofDigitChars 10 (Text.digitsOf d.coefficient ++ []) 0 = d.coefficient := by
      rw [List.append_nil]
      exact Text.numberOf_digitsOf _
    have none : Text.AllDigits [] := by simp [Text.AllDigits]
    have read := Reading.read_parts (Text.allDigits_digitsOf d.coefficient) none
      (Text.digitsOf_ne_nil _) ['0'] (value.symm ▸ d.coefficient_lt) (by decide)
    rw [if_pos hs]
    rw [List.nil_append] at read
    rw [read, Reading.read]
    have digit : Text.digit? '0' = some 0 := by decide
    simp only [digit, Reading.Fits, Reading.nextScale, value, List.length_nil, if_true, hs,
      true_and, Nat.add_zero]
    by_cases fits : 10 * d.coefficient < limit
    · have room : 10 * d.coefficient < limit ∧ 0 + 1 ≤ maxScale := ⟨fits, by decide⟩
      rw [dif_pos room]
      refine ⟨_, by rw [Reading.read]; rfl, ?_, ?_⟩
      · simp only [Reading.push, dif_pos fits, Nat.add_zero]
      · simp only [Reading.push, Reading.nextScale, dif_pos fits, if_true]
    · rw [dif_neg (fun room => fits room.1)]
      refine ⟨_, by rw [Reading.roundBy, if_pos (by decide)]; rfl, ?_, ?_⟩
      · simp only [dif_neg fits]
      · simp only [dif_neg fits, hs]
  · obtain ⟨whole, places, htext, hjoin, hlen, hne⟩ := magnitudeText_parts d.coefficient hs
    have all : Text.AllDigits (whole ++ places) := hjoin ▸ Text.allDigits_padded _ _
    have value : Nat.ofDigitChars 10 (whole ++ places) 0 = d.coefficient := by
      rw [hjoin, Text.ofDigitChars_padded]
    have read := Reading.read_parts (fun c hc => all c (List.mem_append_left _ hc))
      (fun c hc => all c (List.mem_append_right _ hc)) hne []
      (value.symm ▸ d.coefficient_lt) (hlen.symm ▸ d.scale_le)
    rw [List.append_nil] at read
    rw [if_neg hs, dif_neg (fun h => hs h.1), htext, read]
    exact ⟨_, by rw [Reading.read]; rfl, value, hlen⟩

theorem Reading.toDecimal_eq {r : Reading} {d : Decimal} (hc : r.coefficient = d.coefficient)
    (hs : r.scale = d.scale) : r.toDecimal d.negative = d.unsignedZero := by
  cases r
  cases d
  simp_all [toDecimal, unsignedZero]

/-- A text that starts with a digit is read with the sign before it. -/
theorem readPlain_signed {body : List Char} {c : Char} {digits : List Char}
    (starts : body = c :: digits) (digit : c.isDigit = true) (negative : Bool) :
    readPlain (if negative then '-' :: body else body) =
      (Reading.start.read body).map (·.toDecimal negative) := by
  cases negative with
  | true => rfl
  | false =>
    rw [if_neg Bool.false_ne_true, starts]
    unfold readPlain
    split
    · exact absurd ‹_› (by simp)
    · cases ‹c :: _ = _›
      exact absurd digit (by decide)
    · cases ‹c :: _ = _›
      exact absurd digit (by decide)
    · rfl

theorem read_signed {body : List Char} {c : Char} {digits : List Char} (starts : body = c :: digits)
    (digit : c.isDigit = true) {r : Reading} (hread : Reading.start.read body = .ok r)
    (negative : Bool) :
    read (if negative then '-' :: body else body) = .ok (r.toDecimal negative) := by
  rw [read, readPlain_signed starts digit, hread]
  rfl

theorem read_queryText (d : Decimal) : read d.queryText = .ok d.normal := by
  obtain ⟨r, hread, hc, hs⟩ := d.read_bodyText
  obtain ⟨whole, places, htext, hw, -, hne⟩ := d.bodyText_parts
  obtain ⟨c, whole, rfl⟩ := List.exists_cons_of_ne_nil hne
  have sign : d.widened.negative = d.negative := by
    unfold widened
    split <;> rfl
  have result : r.toDecimal d.negative = d.normal := by
    rw [← sign]
    exact Reading.toDecimal_eq hc hs
  rw [queryText_eq, read_signed htext hw.head hread, result]

/-- A whole number that fits is read without places. -/
theorem read_digitsOf {n : Nat} (fits : n < limit) :
    ∃ r, Reading.start.read (Text.digitsOf n) = .ok r ∧ r.coefficient = n ∧ r.scale = 0 := by
  have value : Nat.ofDigitChars 10 (Text.digitsOf n) 0 = n := Text.numberOf_digitsOf n
  have started : (!(Text.digitsOf n).isEmpty) = true := by simp [Text.digitsOf_ne_nil]
  have read := Reading.read_digits (Text.allDigits_digitsOf n) Reading.start (value.symm ▸ fits)
    (Nat.zero_le _) []
  rw [List.append_nil, Reading.read, started, Bool.or_true, if_pos rfl] at read
  exact ⟨_, read, value, rfl⟩

/-- The text of a decimal without places has no point, and is read as it stands. -/
theorem read_text (d : Decimal) : read d.text = .ok d.unsignedZero := by
  by_cases hs : d.scale = 0
  · have digits := Text.allDigits_digitsOf d.coefficient
    obtain ⟨c, rest, htext⟩ := List.exists_cons_of_ne_nil (Text.digitsOf_ne_nil d.coefficient)
    obtain ⟨r, read, hc, hs'⟩ := read_digitsOf d.coefficient_lt
    have text : d.text = if d.negative then '-' :: Text.digitsOf d.coefficient
        else Text.digitsOf d.coefficient := by
      rw [text, magnitudeText, if_pos hs]
    rw [text, read_signed htext (htext ▸ digits).head read]
    exact congrArg Except.ok (Reading.toDecimal_eq hc (hs'.trans hs.symm))
  · have same : d.widened = d := dif_neg fun h => hs h.1
    have text : d.queryText = d.text := if_neg hs
    rw [← text, read_queryText, normal, same]

/-! ### The number and the text -/

theorem mantissa_unsignedZero (d : Decimal) : d.unsignedZero.mantissa = d.mantissa := by
  unfold unsignedZero mantissa
  by_cases hn : d.negative = true
  · by_cases hc : d.coefficient = 0 <;> simp [hn, hc]
  · simp [hn]

theorem inUnits_eq (d : Decimal) (places : Nat) : d.inUnits places = d.mantissa * 10 ^ places := by
  rw [inUnits, Nat.pow_eq]
  push_cast
  rfl

/-- A decimal and the one its text is read as stand for the same number. -/
theorem equal_normal (d : Decimal) : d.equal d.normal = true := by
  have scale : d.normal.scale = d.widened.scale := rfl
  have mantissa : d.normal.mantissa = d.widened.mantissa := mantissa_unsignedZero _
  rw [equal_iff, inUnits_eq, inUnits_eq, scale, mantissa, widened]
  by_cases h : d.scale = 0 ∧ 10 * d.coefficient < limit
  · rw [dif_pos h]
    simp only [Decimal.mantissa, h.1, pow_one, pow_zero, mul_one]
    split <;> push_cast <;> ring
  · rw [dif_neg h]

theorem padded_mul_ten (n : Nat) : Text.padded 2 (10 * n) = Text.digitsOf n ++ ['0'] := by
  cases n with
  | zero => rfl
  | succ n =>
    have digits : Text.digitsOf (10 * (n + 1)) = Text.digitsOf (n + 1) ++ ['0'] :=
      (Nat.toDigits_append_toDigits (b := 10) (d := 0) (by decide) n.succ_pos (by decide)).symm
    have pos := List.length_pos_iff.mpr (Text.digitsOf_ne_nil (n + 1))
    have enough : 2 - (Text.digitsOf (10 * (n + 1))).length = 0 := by
      rw [digits, List.length_append, List.length_singleton]
      omega
    rw [Text.padded, enough, digits]
    rfl

theorem bodyText_normal (d : Decimal) : d.normal.bodyText = d.bodyText := by
  have body : d.normal.bodyText = d.widened.bodyText := rfl
  rw [body, widened]
  by_cases h : d.scale = 0 ∧ 10 * d.coefficient < limit
  · rw [dif_pos h]
    have digits : Text.padded (1 + 1) (10 * d.coefficient) =
        Text.digitsOf d.coefficient ++ ['0'] := padded_mul_ten _
    simp only [bodyText, h.1, if_true, magnitudeText, digits, one_ne_zero, if_false]
    simp
  · rw [dif_neg h]

/-- The text of a decimal is that of the decimal it is read as, but for the sign of
a zero. -/
theorem queryText_normal (d : Decimal) :
    d.queryText = if d.isNegativeZero then '-' :: d.normal.queryText else d.normal.queryText := by
  have sign : d.normal.negative = (d.negative && d.coefficient != 0) := by
    unfold normal unsignedZero widened
    split
    · have zero : (10 * d.coefficient != 0) = (d.coefficient != 0) := by
        rw [Bool.eq_iff_iff]; simp
      simp only [zero]
    · rfl
  rw [queryText_eq, queryText_eq, bodyText_normal, sign, isNegativeZero]
  by_cases hn : d.negative = true
  · by_cases hc : d.coefficient = 0 <;> simp [hn, hc]
  · simp [hn]

theorem madeOf_queryText (d : Decimal) : Text.MadeOf ['.', '-'] d.queryText := by
  obtain ⟨whole, places, htext, hw, hp, -⟩ := d.bodyText_parts
  have body : Text.MadeOf ['.', '-'] d.bodyText := by
    rw [htext]
    simp [hw.madeOf, hp.madeOf]
  rw [queryText_eq]
  split
  · simp [body]
  · exact body

theorem point_mem_queryText (d : Decimal) : '.' ∈ d.queryText := by
  obtain ⟨whole, places, htext, -⟩ := d.bodyText_parts
  rw [queryText_eq, htext]
  split <;> simp

end CatalogQuery.Decimal
