import CatalogQuery.Proofs.Decimal.RoundTrip
import CatalogQuery.Proofs.Outcome
import Mathlib.Data.List.TakeWhile
import Mathlib.Data.Rat.Defs
import Mathlib.Tactic.FieldSimp
import Mathlib.Tactic.NormNum

/-!
# How decimals are read

A decimal is read with a power of ten if its text has a mark for one, and plainly otherwise. A
text may have more places than a decimal, and then the last ones are rounded off, or a larger
whole part, and then it is refused.
-/

namespace CatalogQuery.Decimal

/-- The decimal `coefficient / 10 ^ places`, rounded to the places a decimal has. -/
def fitted? (negative : Bool) (coefficient places : Nat) : Option Decimal :=
  ofParts? negative (roundOff coefficient (places - maxScale)) (min places maxScale)

/-! ### The two forms -/

theorem unmarked_digit {c : Char} (h : c.isDigit = true) : isPowerMark c = false := by
  rw [Bool.eq_false_iff]
  intro mark
  rw [isPowerMark, Bool.or_eq_true, beq_iff_eq, beq_iff_eq] at mark
  rcases mark with rfl | rfl <;> cases h

theorem Reading.unmarked_of_checkDropped {text : List Char} (h : checkDropped text = .ok ()) :
    text.any isPowerMark = false := by
  induction text with
  | nil => rfl
  | cons c rest ih =>
    rw [checkDropped] at h
    split at h
    · rename_i fine
      rw [List.any_cons, ih h, Bool.or_false]
      rw [Bool.or_eq_true, beq_iff_eq] at fine
      rcases fine with digit | rfl
      · exact unmarked_digit digit
      · rfl
    · cases h

/-- Digits that are read have no mark of a power among them. -/
theorem Reading.unmarked_of_read {r r' : Reading} {text : List Char} (h : r.read text = .ok r') :
    text.any isPowerMark = false := by
  induction text generalizing r with
  | nil => rfl
  | cons c rest ih =>
    rw [List.any_cons, Bool.or_eq_false_iff]
    cases digit : c.isDigit with
    | true =>
      refine ⟨unmarked_digit digit, ?_⟩
      rw [Reading.read] at h
      simp only [Text.digit?_eq_some digit] at h
      split at h
      · exact ih h
      · split at h
        · obtain ⟨rounded, -, h⟩ := Outcome.bind_eq_ok.mp h
          obtain ⟨_, dropped, -⟩ := Outcome.bind_eq_ok.mp h
          exact unmarked_of_checkDropped dropped
        · cases h
    | false =>
      rw [Reading.read] at h
      simp only [Text.digit?_eq_none digit] at h
      split at h
      · rename_i point
        obtain ⟨rfl, -⟩ := point
        exact ⟨rfl, ih h⟩
      · split at h
        · rename_i separator
          obtain ⟨rfl, -⟩ := separator
          refine ⟨rfl, ?_⟩
          split at h
          · obtain ⟨_, dropped, -⟩ := Outcome.map_eq_ok.mp h
            exact unmarked_of_checkDropped dropped
          · exact ih h
        · cases h

/-- A decimal that is read plainly has no mark of a power. -/
theorem unmarked_of_readPlain {text : List Char} {d : Decimal} (h : readPlain text = .ok d) :
    text.any isPowerMark = false := by
  unfold readPlain at h
  split at h
  · cases h
  · obtain ⟨r, read, -⟩ := Outcome.map_eq_ok.mp h
    rw [List.any_cons, Reading.unmarked_of_read read]
    rfl
  · obtain ⟨r, read, -⟩ := Outcome.map_eq_ok.mp h
    rw [List.any_cons, Reading.unmarked_of_read read]
    rfl
  · obtain ⟨r, read, -⟩ := Outcome.map_eq_ok.mp h
    exact Reading.unmarked_of_read read

theorem takeWhile_unmarked {base : List Char} (h : base.any isPowerMark = false)
    (rest : List Char) : (base ++ 'e' :: rest).takeWhile (!isPowerMark ·) = base := by
  apply Text.takeWhile_append
  · intro c hc
    have plain := List.any_eq_false.mp h c hc
    simpa using plain
  · exact Text.leaves_cons.mpr rfl

theorem readScientific_of_unmarked {text : List Char} (h : text.any isPowerMark = false) :
    readScientific text = .error .malformedPower := by
  have whole : text.takeWhile (!isPowerMark ·) = text := by
    rw [List.takeWhile_eq_self_iff]
    intro c hc
    have plain := List.any_eq_false.mp h c hc
    simpa using plain
  simp [readScientific, whole]

/-- A decimal is read plainly, or else with a power of ten. -/
theorem toOption_read (text : List Char) :
    (read text).toOption = (readPlain text).toOption.or (readScientific text).toOption := by
  unfold read
  cases readPlain text with
  | ok d => rfl
  | error fault =>
    dsimp only
    split
    · rfl
    · rename_i unmarked
      rw [readScientific_of_unmarked (Bool.eq_false_iff.mpr unmarked)]
      rfl

theorem toOption_read_unmarked {text : List Char} (h : text.any isPowerMark = false) :
    (read text).toOption = (readPlain text).toOption := by
  rw [toOption_read, readScientific_of_unmarked h]
  exact Option.or_none

theorem toOption_read_marked {text : List Char} (h : text.any isPowerMark = true) :
    (read text).toOption = (readScientific text).toOption := by
  rw [toOption_read]
  cases plain : readPlain text with
  | ok d =>
    rw [unmarked_of_readPlain plain] at h
    cases h
  | error fault => rfl

theorem fitted?_of_le {places : Nat} (h : places ≤ maxScale) (negative : Bool) (coefficient : Nat) :
    fitted? negative coefficient places = ofParts? negative coefficient places := by
  rw [fitted?, Nat.sub_eq_zero_of_le h, Nat.min_eq_left h]
  rfl

theorem roundOff_lt {coefficient : Nat} (h : coefficient < limit) (places : Nat) :
    roundOff coefficient places < limit := by
  unfold roundOff
  by_cases none : places = 0
  · rwa [if_pos none]
  · have tenth : coefficient / 10 ^ places ≤ coefficient / 10 :=
      Nat.div_le_div_left (Nat.le_self_pow none 10) (by decide)
    rw [if_neg none]
    simp only [Nat.pow_eq, limit] at h ⊢
    split <;> omega

/-- A coefficient that fits does so with any number of places. -/
theorem exists_fitted? {coefficient : Nat} (h : coefficient < limit) (negative : Bool)
    (places : Nat) : ∃ d, fitted? negative coefficient places = some d := by
  rw [fitted?, ofParts?, dif_pos ⟨roundOff_lt h _, Nat.min_le_right _ _⟩]
  exact ⟨_, rfl⟩

/-! ### Digits that do not fit -/

theorem Reading.read_overflow {digits : List Char} (hd : Text.AllDigits digits) (r : Reading)
    (point : r.point = false) (large : limit ≤ Nat.ofDigitChars 10 digits r.coefficient)
    (rest : List Char) : r.read (digits ++ rest) = .error .tooManyDigits := by
  induction digits generalizing r with
  | nil => exact absurd r.coefficient_lt (Nat.not_lt.mpr large)
  | cons c digits ih =>
    rw [Nat.ofDigitChars_cons] at large
    rw [List.cons_append, Reading.read]
    simp only [Text.digit?_eq_some hd.head]
    split
    · rename_i fits
      exact ih hd.tail (r.push _ fits) point large
    · rw [point, if_neg Bool.false_ne_true]

theorem Reading.checkDropped_digits {digits : List Char} (hd : Text.AllDigits digits) :
    checkDropped digits = .ok () := by
  induction digits with
  | nil => rfl
  | cons c digits ih =>
    rw [checkDropped, if_pos (by simp [hd.head])]
    exact ih hd.tail

/-- The first of the digits that are rounded off decides. -/
theorem roundOff_digits {digit dropped places : Nat} (hd : digit < 10)
    (small : dropped < 10 ^ places) (kept : Nat) :
    roundOff ((10 * kept + digit) * 10 ^ places + dropped) (places + 1) =
      if 5 ≤ digit then kept + 1 else kept := by
  have first : ((10 * kept + digit) * 10 ^ places + dropped) / 10 ^ places = 10 * kept + digit := by
    rw [Nat.add_comm, Nat.add_mul_div_right _ _ (Nat.pow_pos (by decide)),
      Nat.div_eq_of_lt small, Nat.zero_add]
  have all : ((10 * kept + digit) * 10 ^ places + dropped) / 10 ^ (places + 1) = kept := by
    rw [Nat.pow_succ, ← Nat.div_div_eq_div_mul, first]
    omega
  have last : (10 * kept + digit) % 10 = digit := by omega
  rw [roundOff, if_neg (Nat.succ_ne_zero places), Nat.add_sub_cancel]
  simp only [Nat.pow_eq, first, all, last]

/-- Digits behind the last place are rounded off. -/
theorem Reading.read_dropped (r : Reading) (point : r.point = true) (full : r.scale = maxScale)
    {c : Char} {digits : List Char} (hd : Text.AllDigits (c :: digits))
    (small : r.coefficient + 1 < limit) :
    ∃ r', r.read (c :: digits) = .ok r' ∧ r'.scale = maxScale ∧
      r'.coefficient = roundOff (Nat.ofDigitChars 10 (c :: digits) r.coefficient)
        (digits.length + 1) := by
  have bounds := Char.isDigit_iff_toNat.mp hd.head
  have tail := Text.ofDigitChars_lt hd.tail 0
  rw [Nat.zero_add, Nat.one_mul] at tail
  have digit : c.toNat - '0'.toNat < 10 := by
    simp only [Char.reduceToNat] at bounds ⊢
    omega
  have crowded : ¬r.Fits (c.toNat - '0'.toNat) := by
    rintro ⟨-, room⟩
    rw [nextScale, if_pos point, full] at room
    omega
  rw [Nat.ofDigitChars_cons, Nat.ofDigitChars_eq_ofDigitChars_zero, Nat.mul_comm (10 ^ _),
    roundOff_digits digit tail, Reading.read]
  simp only [Text.digit?_eq_some hd.head, dif_neg crowded, point, if_true,
    checkDropped_digits hd.tail]
  rw [roundBy]
  by_cases up : 5 ≤ c.toNat - '0'.toNat
  · rw [if_neg (Nat.not_lt.mpr up), dif_pos small, if_pos up]
    exact ⟨_, rfl, full, rfl⟩
  · rw [if_pos (Nat.not_le.mp up), if_neg up]
    exact ⟨r, rfl, full, rfl⟩

/-- Digits, a point and any number of places are read, the last of them rounded off. -/
theorem Reading.read_places {whole places : List Char} (hw : Text.AllDigits whole)
    (hp : Text.AllDigits places) (hne : whole ≠ [])
    (hc : Nat.ofDigitChars 10 (whole ++ places) 0 < limit) :
    ∃ r, Reading.start.read (whole ++ '.' :: places) = .ok r ∧
      r.scale = min places.length maxScale ∧
      r.coefficient = roundOff (Nat.ofDigitChars 10 (whole ++ places) 0)
        (places.length - maxScale) := by
  by_cases short : places.length ≤ maxScale
  · have read := Reading.read_parts hw hp hne [] hc short
    rw [List.append_nil, Reading.read, if_pos rfl] at read
    rw [Nat.sub_eq_zero_of_le short, Nat.min_eq_left short]
    exact ⟨_, read, rfl, rfl⟩
  · rw [Nat.min_eq_right (Nat.le_of_not_le short)]
    obtain ⟨kept, rest, rfl, length⟩ :
        ∃ kept rest, places = kept ++ rest ∧ kept.length = maxScale :=
      ⟨_, _, (List.take_append_drop maxScale places).symm, by rw [List.length_take]; omega⟩
    rw [List.length_append, length] at short ⊢
    obtain ⟨c, digits, rfl⟩ := List.exists_cons_of_ne_nil (l := rest) (by rintro rfl; simp at short)
    have last : Text.AllDigits (c :: digits) := fun a ha => hp a (List.mem_append_right _ ha)
    have first : Text.AllDigits kept := fun a ha => hp a (List.mem_append_left _ ha)
    rw [← List.append_assoc, Nat.ofDigitChars_append] at hc ⊢
    have room : 10 * Nat.ofDigitChars 10 (whole ++ kept) 0 < limit := by
      have grown := Text.le_ofDigitChars digits
        (10 * Nat.ofDigitChars 10 (whole ++ kept) 0 + (c.toNat - '0'.toNat))
      rw [Nat.ofDigitChars_cons] at hc
      omega
    have fits : Nat.ofDigitChars 10 (whole ++ kept) 0 < limit := by omega
    have more : Nat.ofDigitChars 10 (whole ++ kept) 0 + 1 < limit := by
      simp only [limit] at room ⊢
      omega
    have beyond : maxScale + (c :: digits).length - maxScale = digits.length + 1 := by simp
    rw [Reading.read_parts hw first hne (c :: digits) fits (Nat.le_of_eq length), beyond]
    exact Reading.read_dropped _ rfl length last more

/-! ### The text of a number -/

theorem Reading.toDecimal_eq_ofParts (r : Reading) (negative : Bool) :
    (ofParts? negative r.coefficient r.scale).map unsignedZero = some (r.toDecimal negative) := by
  rw [ofParts?, dif_pos ⟨r.coefficient_lt, r.scale_le⟩]
  rfl

/-- What the text of a coefficient with some places is read as. A whole number may be too
large. -/
theorem toOption_read_magnitudeText {coefficient places : Nat}
    (h : places = 0 ∨ coefficient < limit) (negative : Bool) :
    ((Reading.start.read (magnitudeText coefficient places)).map (·.toDecimal negative)).toOption =
      (fitted? negative coefficient places).map unsignedZero := by
  by_cases whole : places = 0
  · subst whole
    rw [magnitudeText, if_pos rfl, fitted?_of_le (Nat.zero_le _)]
    by_cases fits : coefficient < limit
    · obtain ⟨r, read, hc, hs⟩ := read_digitsOf fits
      rw [read, ← hc, ← hs, r.toDecimal_eq_ofParts]
      rfl
    · have value : Nat.ofDigitChars 10 (Text.digitsOf coefficient) 0 = coefficient :=
        Text.numberOf_digitsOf coefficient
      have read := Reading.read_overflow (Text.allDigits_digitsOf coefficient) Reading.start rfl
        (Nat.le_of_not_lt (value.symm ▸ fits)) []
      rw [List.append_nil] at read
      rw [read, ofParts?, dif_neg (fun both => fits both.1)]
      rfl
  · have fits : coefficient < limit := h.resolve_left whole
    obtain ⟨whole, digits, text, joined, length, hne⟩ := magnitudeText_parts coefficient whole
    have all : Text.AllDigits (whole ++ digits) := joined ▸ Text.allDigits_padded _ _
    have value : Nat.ofDigitChars 10 (whole ++ digits) 0 = coefficient := by
      rw [joined, Text.ofDigitChars_padded]
    obtain ⟨r, read, hs, hc⟩ := Reading.read_places (fun c h => all c (List.mem_append_left _ h))
      (fun c h => all c (List.mem_append_right _ h)) hne (value.symm ▸ fits)
    rw [value, length] at hc
    rw [length] at hs
    rw [text, read, fitted?, ← hc, ← hs, r.toDecimal_eq_ofParts]
    rfl

theorem magnitudeText_starts (coefficient places : Nat) :
    ∃ c rest, magnitudeText coefficient places = c :: rest ∧ c.isDigit = true := by
  by_cases whole : places = 0
  · have digits := Text.allDigits_digitsOf coefficient
    obtain ⟨c, rest, same⟩ := List.exists_cons_of_ne_nil (Text.digitsOf_ne_nil coefficient)
    rw [magnitudeText, if_pos whole]
    exact ⟨c, rest, same, (same ▸ digits).head⟩
  · obtain ⟨whole, digits, text, joined, -, hne⟩ := magnitudeText_parts coefficient whole
    obtain ⟨c, rest, rfl⟩ := List.exists_cons_of_ne_nil hne
    have all : Text.AllDigits (c :: rest ++ digits) := joined ▸ Text.allDigits_padded _ _
    exact ⟨c, _, text, Text.AllDigits.head all⟩

theorem unmarked_magnitudeText (coefficient places : Nat) :
    (magnitudeText coefficient places).any isPowerMark = false := by
  have digits {text : List Char} (all : Text.AllDigits text) : text.any isPowerMark = false :=
    List.any_eq_false.mpr fun c hc => by simp [unmarked_digit (all c hc)]
  by_cases whole : places = 0
  · rw [magnitudeText, if_pos whole]
    exact digits (Text.allDigits_digitsOf coefficient)
  · obtain ⟨whole, fraction, text, joined, -⟩ := magnitudeText_parts coefficient whole
    have all : (whole ++ fraction).any isPowerMark = false :=
      digits (joined ▸ Text.allDigits_padded _ _)
    rw [List.any_append, Bool.or_eq_false_iff] at all
    rw [text, List.any_append, List.any_cons, all.1, all.2]
    rfl

/-- What the text of a coefficient with some places and a sign is read as. -/
theorem toOption_readPlain_magnitudeText {coefficient places : Nat}
    (h : places = 0 ∨ coefficient < limit) (negative : Bool) :
    (readPlain (if negative then '-' :: magnitudeText coefficient places
      else magnitudeText coefficient places)).toOption =
      (fitted? negative coefficient places).map unsignedZero := by
  obtain ⟨c, rest, starts, digit⟩ := magnitudeText_starts coefficient places
  rw [readPlain_signed starts digit, toOption_read_magnitudeText h]

/-! ### Powers of ten -/

/-- The greatest power that is read. -/
def greatestPower : Nat := 4294967295

theorem readPower_plus (n : Nat) :
    readPower ('+' :: Text.digitsOf n) = readPower (Text.digitsOf n) := by
  obtain ⟨c, rest, same⟩ := List.exists_cons_of_ne_nil (Text.digitsOf_ne_nil n)
  have digits := Text.allDigits_digitsOf n
  rw [same] at digits ⊢
  have unsigned : c ≠ '+' := by
    rintro rfl
    exact absurd digits.head (by decide)
  simp [readPower, unsigned]

theorem toOption_readPower_digitsOf (n : Nat) :
    (readPower (Text.digitsOf n)).toOption = if n ≤ greatestPower then some n else none := by
  rw [← readPower_plus, readPower]
  by_cases small : n ≤ greatestPower
  · rw [if_pos small]
    have read := Text.readNatural_digitsOf .tooLarge small
    rw [greatestPower] at read
    simp [read]
  · rw [if_neg small]
    have read := Text.readNatural_large .tooLarge (Nat.lt_of_not_le small)
    rw [greatestPower] at read
    simp [read]

theorem toOption_shiftDown {base : Decimal} {power : Nat} :
    (shiftDown base power).toOption = if power ≤ maxScale then
      fitted? base.negative base.coefficient (base.scale + power) else none := by
  unfold shiftDown
  by_cases small : power ≤ maxScale
  · have scale : base.scale + power - (base.scale + power - maxScale) =
        min (base.scale + power) maxScale := by omega
    rw [if_neg (Nat.not_lt.mpr small), if_pos small, fitted?]
    simp only [scale]
    split <;> rename_i same <;> rw [same] <;> rfl
  · rw [if_pos (Nat.lt_of_not_le small), if_neg small]
    rfl

theorem toOption_shiftUp {base : Decimal} {power : Nat} :
    (shiftUp base power).toOption = if power ≤ maxScale then
      fitted? base.negative (base.coefficient * 10 ^ (power - base.scale)) (base.scale - power)
      else none := by
  unfold shiftUp
  by_cases within : power ≤ base.scale
  · have fits : base.scale - power ≤ maxScale := Nat.le_trans (Nat.sub_le _ _) base.scale_le
    rw [if_pos within, if_pos (Nat.le_trans within base.scale_le), Nat.sub_eq_zero_of_le within,
      Nat.pow_zero, Nat.mul_one, fitted?_of_le fits, ofParts?, dif_pos ⟨base.coefficient_lt, fits⟩]
    rfl
  · rw [if_neg within]
    by_cases small : power ≤ maxScale
    · rw [if_neg (Nat.not_lt.mpr small), if_pos small,
        Nat.sub_eq_zero_of_le (Nat.le_of_not_le within), fitted?_of_le (Nat.zero_le _)]
      simp only [Nat.pow_eq]
      split <;> rename_i same <;> rw [same] <;> rfl
    · rw [if_pos (Nat.lt_of_not_le small), if_neg small]
      rfl

/-- A power that is read is used if it is small. -/
theorem toOption_power {shift : Nat → Except Fault Decimal} {shifted : Nat → Option Decimal}
    (h : ∀ power, (shift power).toOption = if power ≤ maxScale then shifted power else none)
    (n : Nat) : (readPower (Text.digitsOf n) >>= shift).toOption =
      if n ≤ maxScale then shifted n else none := by
  rw [Outcome.toOption_bind, toOption_readPower_digitsOf]
  by_cases read : n ≤ greatestPower
  · rw [if_pos read]
    exact h n
  · have large : ¬n ≤ maxScale := by
      simp only [greatestPower, maxScale] at read ⊢
      omega
    rw [if_neg read, if_neg large]
    rfl

/-- A negative power after a text without a mark. -/
theorem readScientific_down {base power : List Char} (h : base.any isPowerMark = false)
    {d : Decimal} (plain : readPlain base = .ok d) :
    readScientific (base ++ 'e' :: '-' :: power) = readPower power >>= shiftDown d := by
  simp only [readScientific, takeWhile_unmarked h, List.drop_left, plain]
  rfl

/-- A power with a plus sign after a text without a mark. -/
theorem readScientific_up {base power : List Char} (h : base.any isPowerMark = false)
    {d : Decimal} (plain : readPlain base = .ok d) :
    readScientific (base ++ 'e' :: '+' :: power) = readPower ('+' :: power) >>= shiftUp d := by
  simp only [readScientific, takeWhile_unmarked h, List.drop_left, plain]
  rfl

/-! ### The number -/

def value (d : Decimal) : ℚ := d.mantissa / 10 ^ d.scale

theorem equal_iff_value (a b : Decimal) : a.equal b = true ↔ a.value = b.value := by
  rw [equal_iff, inUnits_eq, inUnits_eq, value, value,
    div_eq_div_iff (by positivity) (by positivity)]
  norm_cast

theorem value_unsignedZero (d : Decimal) : d.unsignedZero.value = d.value := by
  rw [value, value, mantissa_unsignedZero]
  rfl

end CatalogQuery.Decimal
