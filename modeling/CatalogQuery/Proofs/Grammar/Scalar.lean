import CatalogQuery.Grammar.Token
import CatalogQuery.Proofs.Calendar.Zoned
import CatalogQuery.Proofs.Decimal.RoundTrip

namespace CatalogQuery

open Text (MadeOf padded AllDigits)

/-! ### The characters of dates and times -/

namespace Calendar

theorem madeOf_yearText (year : Int) : MadeOf ['-', '+'] (yearText year) := by
  have digits := Text.madeOf_padded ['-', '+'] 4 year.natAbs
  unfold yearText
  split_ifs <;> simp [digits]

theorem madeOf_clockText (second nano : Nat) : MadeOf [':', '.'] (clockText second nano) := by
  have digits := Text.madeOf_padded [':', '.']
  have fraction (nano : Nat) : MadeOf [':', '.'] (fractionText nano) := by
    unfold fractionText
    split_ifs <;> simp [digits]
  simp [clockText, digits, fraction]

theorem madeOf_minutesText (negative : Bool) (minutes : Nat) :
    MadeOf ['-', '+', ':'] (minutesText negative minutes) := by
  have digits := Text.madeOf_padded ['-', '+', ':']
  cases negative <;> simp [minutesText, digits]

end Calendar

open Calendar

theorem Day.madeOf_text (d : Day) : MadeOf ['-', '+'] d.text := by
  have digits := Text.madeOf_padded ['-', '+']
  simp [Day.text, madeOf_yearText, digits]

namespace Grammar

/-! ### Tokens -/

/-- A text that the scanner of numbers and dates takes whole: it starts with a digit
or a sign and goes on with the characters of numbers and dates. -/
structure Scalar (text : List Char) : Prop where
  start : ∃ c rest, text = c :: rest ∧ isScalarStart c = true
  chars : ∀ c ∈ text, isScalarChar c = true

theorem isScalarStart_of_isDigit {c : Char} (h : c.isDigit = true) : isScalarStart c = true := by
  simp [isScalarStart, h]

theorem isScalarChar_of_madeOf {text : List Char}
    (h : MadeOf ['-', '+', ':', '.', 'T'] text) : ∀ c ∈ text, isScalarChar c = true := by
  have marks : ['-', '+', ':', '.', 'T'].all isScalarChar = true := by decide
  intro c hc
  rcases h c hc with digit | mark
  · simp [isScalarChar, isScalarStart_of_isDigit digit]
  · exact List.all_eq_true.mp marks c mark

/-- The characters of numbers and dates lie between `+` and `Z`, and none is a comma. -/
theorem bounds_of_isScalarChar {c : Char} (h : isScalarChar c = true) :
    0x2A < c.toNat ∧ c.toNat < 0x5B ∧ c ≠ ',' := by
  have marks : ∀ c ∈ ['-', '+', ':', '.', 'T', 'Z'], 0x2A < c.toNat ∧ c.toNat < 0x5B ∧ c ≠ ',' := by
    simp
  by_cases digit : c.isDigit = true
  · have bounds := Char.isDigit_iff_toNat.mp digit
    simp only [Char.reduceToNat] at bounds
    exact ⟨by omega, by omega, Text.ne_of_class digit (by decide)⟩
  · apply marks c
    simp only [isScalarChar, isScalarStart, digit, Bool.false_or, Bool.or_eq_true,
      beq_iff_eq] at h
    simp only [List.mem_cons, List.not_mem_nil, or_false]
    grind

theorem isBlank_of_isScalarChar {c : Char} (h : isScalarChar c = true) :
    Text.isBlank c = false := by
  obtain ⟨lower, upper, -⟩ := bounds_of_isScalarChar h
  exact Text.isBlank_eq_false (by omega) (by omega)

namespace Scalar

theorem of_digits {digits rest : List Char} (hd : AllDigits digits) (hne : digits ≠ [])
    (h : MadeOf ['-', '+', ':', '.', 'T'] (digits ++ rest)) : Scalar (digits ++ rest) := by
  obtain ⟨c, digits, rfl⟩ := List.exists_cons_of_ne_nil hne
  exact ⟨⟨c, _, rfl, isScalarStart_of_isDigit hd.head⟩, isScalarChar_of_madeOf h⟩

theorem integerText (n : Int) : Scalar (Text.integerText n) := by
  have chars := isScalarChar_of_madeOf ((Text.madeOf_integerText n).mono (by simp))
  refine ⟨?_, chars⟩
  unfold Text.integerText
  split
  · exact ⟨_, _, rfl, by decide⟩
  · obtain ⟨c, digits, h⟩ := List.exists_cons_of_ne_nil (Text.digitsOf_ne_nil n.natAbs)
    exact ⟨c, digits, h, isScalarStart_of_isDigit (h ▸ Text.allDigits_digitsOf n.natAbs).head⟩

theorem queryText_decimal (d : Decimal) : Scalar d.queryText := by
  have chars := isScalarChar_of_madeOf (d.madeOf_queryText.mono (by simp))
  refine ⟨?_, chars⟩
  obtain ⟨whole, places, htext, hw, -, hne⟩ := d.bodyText_parts
  rw [Decimal.queryText_eq]
  split
  · exact ⟨_, _, rfl, by decide⟩
  · obtain ⟨c, whole, rfl⟩ := List.exists_cons_of_ne_nil hne
    exact ⟨c, _, htext, isScalarStart_of_isDigit hw.head⟩

theorem of_year {year : Int} {rest : List Char}
    (h : MadeOf ['-', '+', ':', '.', 'T'] rest) : Scalar (yearText year ++ rest) := by
  have year_chars : MadeOf ['-', '+', ':', '.', 'T'] (yearText year) :=
    (madeOf_yearText year).mono (by simp)
  refine ⟨?_, isScalarChar_of_madeOf (Text.madeOf_append.mpr ⟨year_chars, h⟩)⟩
  unfold yearText
  obtain ⟨c, digits, hc⟩ := List.exists_cons_of_ne_nil (Text.padded_ne_nil 4 year.natAbs)
  split_ifs
  · exact ⟨_, _, rfl, by decide⟩
  · rw [hc]
    exact ⟨c, _, rfl, isScalarStart_of_isDigit (hc ▸ Text.allDigits_padded 4 year.natAbs).head⟩
  · exact ⟨_, _, rfl, by decide⟩

theorem text_day (d : Day) {rest : List Char} (h : MadeOf ['-', '+', ':', '.', 'T'] rest) :
    Scalar (d.text ++ rest) := by
  have digits := Text.madeOf_padded ['-', '+', ':', '.', 'T']
  simp only [Day.text, List.append_assoc, List.cons_append]
  exact of_year (by simp [digits, h])

theorem text_date (d : Date) : Scalar d.text := by
  have := text_day d.day Text.madeOf_nil
  rwa [List.append_nil] at this

theorem text_time (t : Time) : Scalar t.text := by
  have chars : MadeOf ['-', '+', ':', '.', 'T'] t.text := (madeOf_clockText _ _).mono (by simp)
  simp only [Time.text, clockText, List.append_assoc] at chars ⊢
  exact of_digits (Text.allDigits_padded _ _) (Text.padded_ne_nil _ _) chars

theorem text_local (t : LocalTime) {rest : List Char} (h : MadeOf ['-', '+', ':', '.', 'T'] rest) :
    Scalar (t.text ++ rest) := by
  have clock : MadeOf ['-', '+', ':', '.', 'T'] (clockText t.second t.nano) :=
    (madeOf_clockText _ _).mono (by simp)
  rw [LocalTime.text, List.append_assoc, List.cons_append]
  exact text_day t.day (by simp [clock, h])

theorem text_dateTime (t : DateTime) : Scalar t.text := by
  have := text_local t.toLocal Text.madeOf_nil
  rwa [List.append_nil] at this

theorem queryText_zoned (z : ZonedDateTime) : Scalar z.queryText :=
  text_local z.shown ((madeOf_minutesText _ _).mono (by simp))

end Scalar

/-! ### Kinds -/

/-- Four digits or more, and twice two digits after a hyphen. -/
def isUnsignedDate (digits : List Char) : Bool :=
  4 ≤ (digits.takeWhile Char.isDigit).length && isMonthAndDay (digits.dropWhile Char.isDigit)

theorem isDateForm_minus (rest : List Char) : isDateForm ('-' :: rest) = isUnsignedDate rest := rfl

theorem isDateForm_plus (rest : List Char) : isDateForm ('+' :: rest) = isUnsignedDate rest := rfl

theorem isDateForm_of_isDigit {c : Char} (h : c.isDigit = true) (rest : List Char) :
    isDateForm (c :: rest) = isUnsignedDate (c :: rest) := by
  unfold isDateForm
  split
  · cases ‹c :: rest = _›
    exact absurd h (by decide)
  · cases ‹c :: rest = _›
    exact absurd h (by decide)
  · rfl

theorem madeOf_of_isUnsignedDate {text : List Char} (h : isUnsignedDate text = true) :
    MadeOf ['-', '+'] text := by
  have year : AllDigits (text.takeWhile Char.isDigit) := List.all_eq_true.mp List.all_takeWhile
  rw [isUnsignedDate, Bool.and_eq_true] at h
  rw [← List.takeWhile_append_dropWhile (p := Char.isDigit) (l := text)]
  refine Text.madeOf_append.mpr ⟨year.madeOf, ?_⟩
  unfold isMonthAndDay at h
  split at h
  · rw [‹text.dropWhile Char.isDigit = _›]
    simp_all
  · cases h.2

theorem madeOf_of_isDateForm {token : List Char} (h : isDateForm token = true) :
    MadeOf ['-', '+'] token := by
  unfold isDateForm at h
  split at h
  · exact Text.madeOf_cons.mpr ⟨.inr (by decide), madeOf_of_isUnsignedDate h⟩
  · exact Text.madeOf_cons.mpr ⟨.inr (by decide), madeOf_of_isUnsignedDate h⟩
  · exact madeOf_of_isUnsignedDate h

theorem isDateForm_eq_false {token : List Char} {c : Char} (hc : c ∈ token)
    (digit : c.isDigit = false) (sign : c ∉ ['-', '+']) : isDateForm token = false := by
  apply Bool.eq_false_iff.mpr
  intro h
  exact (madeOf_of_isDateForm h).not_mem digit sign hc

theorem isDateForm_integerText (n : Int) : isDateForm (Text.integerText n) = false := by
  have hd := Text.allDigits_digitsOf n.natAbs
  have none : isUnsignedDate (Text.digitsOf n.natAbs) = false := by
    have left := Text.dropWhile_append hd (Text.leaves_nil (p := Char.isDigit))
    rw [List.append_nil] at left
    rw [isUnsignedDate, left]
    exact Bool.and_false _
  unfold Text.integerText
  split
  · exact none
  · obtain ⟨c, digits, hc⟩ := List.exists_cons_of_ne_nil (Text.digitsOf_ne_nil n.natAbs)
    rw [hc] at hd none ⊢
    rw [isDateForm_of_isDigit hd.head, none]

theorem isDateForm_text (d : Day) : isDateForm d.text = true := by
  have hmonth : d.month < 100 := Nat.lt_of_le_of_lt d.month_le (by decide)
  have hday : d.day < 100 :=
    Nat.lt_of_le_of_lt (Nat.le_trans d.day_le (daysInMonth_le _ _)) (by decide)
  obtain ⟨m₁, m₂, month, hm₁, hm₂⟩ := Text.padded_two hmonth
  obtain ⟨d₁, d₂, day, hd₁, hd₂⟩ := Text.padded_two hday
  have year := Text.allDigits_padded 4 d.year.natAbs
  have long := Text.le_length_padded 4 d.year.natAbs
  have body : isUnsignedDate (padded 4 d.year.natAbs ++ ['-', m₁, m₂, '-', d₁, d₂]) = true := by
    have leaves : Text.Leaves Char.isDigit ['-', m₁, m₂, '-', d₁, d₂] :=
      Text.leaves_cons.mpr (by decide)
    rw [isUnsignedDate, Text.takeWhile_append year leaves, Text.dropWhile_append year leaves]
    simp [long, isMonthAndDay, hm₁, hm₂, hd₁, hd₂]
  simp only [Day.text, month, day, List.append_assoc, List.cons_append, List.nil_append]
  unfold yearText
  split_ifs
  · rw [List.cons_append, isDateForm_minus, body]
  · obtain ⟨c, digits, hc⟩ := List.exists_cons_of_ne_nil (Text.padded_ne_nil 4 d.year.natAbs)
    rw [hc] at year body ⊢
    rw [List.cons_append] at body ⊢
    rw [isDateForm_of_isDigit year.head, body]
  · rw [List.cons_append, isDateForm_plus, body]

/-- A text that ends with three digits does not end with an offset. -/
theorem endsWithOffset_digits {a b c : Char} (ha : a.isDigit = true) (hc : c.isDigit = true)
    (text : List Char) : endsWithOffset (text ++ [a, b, c]) = false := by
  have ends : (text ++ [a, b, c]).reverse = c :: b :: a :: text.reverse := by simp
  unfold endsWithOffset
  rw [ends]
  split
  · exact absurd hc (by simp_all)
  · exact absurd ha (by simp_all)
  · rfl

/-- What a text is that ends with a minute of two digits. -/
theorem endsWithOffset_minute {sign a b c d : Char} (ha : a.isDigit = true) (hb : b.isDigit = true)
    (hc : c.isDigit = true) (hd : d.isDigit = true) (text : List Char) :
    endsWithOffset (text ++ [sign, a, b, ':', c, d]) = (sign == '+' || sign == '-') := by
  have ends : (text ++ [sign, a, b, ':', c, d]).reverse =
      d :: c :: ':' :: b :: a :: sign :: text.reverse := by simp
  unfold endsWithOffset
  rw [ends]
  split
  · exact absurd hd (by simp_all)
  · simp_all
  · rename_i other
    exact absurd rfl (other d c b a sign text.reverse)

theorem endsWithOffset_minutesText (text : List Char) {negative : Bool} {minutes : Nat}
    (h : minutes < 1440) : endsWithOffset (text ++ minutesText negative minutes) = true := by
  obtain ⟨a, b, hour, ha, hb⟩ := Text.padded_two (show minutes / 60 < 100 by omega)
  obtain ⟨c, d, minute, hc, hd⟩ := Text.padded_two (show minutes % 60 < 100 by omega)
  have parts : minutesText negative minutes =
      [if negative then '-' else '+', a, b, ':', c, d] := by
    rw [minutesText, hour, minute]
    rfl
  rw [parts, endsWithOffset_minute ha hb hc hd]
  cases negative <;> rfl

theorem padded_three {width : Nat} (h : 3 ≤ width) (n : Nat) :
    ∃ front a b c, padded width n = front ++ [a, b, c] ∧ a.isDigit = true ∧ c.isDigit = true := by
  have long := Text.le_length_padded width n
  have hd := Text.allDigits_padded width n
  have three : ((padded width n).drop ((padded width n).length - 3)).length = 3 := by
    rw [List.length_drop]
    omega
  obtain ⟨a, b, c, back⟩ := List.length_eq_three.mp three
  have parts := List.take_append_drop ((padded width n).length - 3) (padded width n)
  rw [back] at parts
  rw [← parts] at hd ⊢
  exact ⟨_, a, b, c, rfl, hd a (by simp), hd c (by simp)⟩

theorem fractionText_ends (nano : Nat) :
    fractionText nano = [] ∨ ∃ front a b c, fractionText nano = front ++ [a, b, c] ∧
      a.isDigit = true ∧ c.isDigit = true := by
  have digits {width n : Nat} (h : 3 ≤ width) : ∃ front a b c,
      '.' :: padded width n = front ++ [a, b, c] ∧ a.isDigit = true ∧ c.isDigit = true := by
    obtain ⟨front, a, b, c, parts, ha, hc⟩ := padded_three h n
    exact ⟨'.' :: front, a, b, c, congrArg ('.' :: ·) parts, ha, hc⟩
  unfold fractionText
  split_ifs
  · exact .inl rfl
  · exact .inr (digits (by decide))
  · exact .inr (digits (by decide))
  · exact .inr (digits (by decide))

/-- A clock shows no offset. -/
theorem endsWithOffset_clockText (text : List Char) (t : Time) :
    endsWithOffset (text ++ clockText t.second t.nano) = false := by
  have hs : t.second < 86400 := t.second_lt
  have hn : t.nano < 2 * 1000000000 := t.nano_lt
  have hsecond : t.second % 60 + t.nano / nanosPerSecond < 100 := by
    simp only [nanosPerSecond]
    omega
  obtain none | ⟨front, a, b, c, fraction, ha, hc⟩ := fractionText_ends (t.nano % nanosPerSecond)
  · obtain ⟨a, b, minute, ha, hb⟩ := Text.padded_two (show t.second / 60 % 60 < 100 by omega)
    obtain ⟨c, d, second, hc, hd⟩ := Text.padded_two hsecond
    have parts : text ++ clockText t.second t.nano =
        (text ++ padded 2 (t.second / 3600)) ++ [':', a, b, ':', c, d] := by
      simp [clockText, none, minute, second]
    rw [parts, endsWithOffset_minute ha hb hc hd]
    rfl
  · rw [clockText, fraction, ← List.append_assoc, ← List.append_assoc,
      endsWithOffset_digits ha hc]

theorem scalarKind_integerText (n : Int) : scalarKind (Text.integerText n) = .int := by
  have chars := Text.madeOf_integerText n
  have mark : 'T' ∉ Text.integerText n := chars.not_mem (by decide) (by decide)
  have colon : ':' ∉ Text.integerText n := chars.not_mem (by decide) (by decide)
  have point : '.' ∉ Text.integerText n := chars.not_mem (by decide) (by decide)
  simp [scalarKind, mark, colon, point, isDateForm_integerText]

theorem scalarKind_decimal (d : Decimal) : scalarKind d.queryText = .decimal := by
  have mark : 'T' ∉ d.queryText := d.madeOf_queryText.not_mem (by decide) (by decide)
  have colon : ':' ∉ d.queryText := d.madeOf_queryText.not_mem (by decide) (by decide)
  have point := d.point_mem_queryText
  have form := isDateForm_eq_false point (by decide) (by decide)
  simp [scalarKind, mark, colon, point, form]

theorem scalarKind_date (d : Date) : scalarKind d.text = .date := by
  have mark : 'T' ∉ d.text := d.day.madeOf_text.not_mem (by decide) (by decide)
  have form : isDateForm d.text = true := isDateForm_text d.day
  simp [scalarKind, mark, form]

theorem scalarKind_time (t : Time) : scalarKind t.text = .time := by
  have mark : 'T' ∉ t.text := (madeOf_clockText _ _).not_mem (by decide) (by decide)
  have colon : ':' ∈ t.text := by simp [Time.text, clockText]
  have form := isDateForm_eq_false colon (by decide) (by decide)
  simp [scalarKind, mark, colon, form]

theorem mark_mem_text (t : LocalTime) : 'T' ∈ t.text := by simp [LocalTime.text]

theorem scalarKind_dateTime (t : DateTime) : scalarKind t.text = .dateTime := by
  have mark : 'T' ∈ t.text := mark_mem_text _
  have offset : endsWithOffset t.text = false := by
    have := endsWithOffset_clockText (t.date.day.text ++ ['T']) t.time
    rwa [List.append_assoc] at this
  simp [scalarKind, mark, offset]

theorem scalarKind_zoned (z : ZonedDateTime) : scalarKind z.queryText = .zonedDateTime := by
  have mark : 'T' ∈ z.queryText := List.mem_append_left _ (mark_mem_text z.shown)
  have offset : endsWithOffset z.queryText = true :=
    endsWithOffset_minutesText _ z.offset.minutes_lt
  simp [scalarKind, mark, offset]

end Grammar
end CatalogQuery
