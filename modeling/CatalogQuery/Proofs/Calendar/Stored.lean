import CatalogQuery.Proofs.Calendar.Zoned

/-!
# Reading stored dates and times back

The stored form of dates and times is their text, which is read by layouts with blanks
before the marks. A text without blanks is read as before. Only the stored form of a zoned
date-time says less than the zoned date-time: its offset is rounded to minutes, and its
local clock is left where it is.
-/

namespace CatalogQuery

open Text (padded Leaves)

namespace Calendar

section
variable {fields : Fields} {parts : List Part} {rest : List Char}

/-- Where no blank stands, none is skipped. -/
theorem readParts_blanks (h : Leaves Text.isBlank rest) :
    readParts (.blanks :: parts) fields rest = readParts parts fields rest := by
  apply readParts_cons
  rw [readPart, Text.skipBlanks_of_leaves h]

theorem readParts_blanks_mark {c : Char} (h : Text.isBlank c = false) :
    readParts (.blanks :: .mark c :: parts) fields (c :: rest) = readParts parts fields rest := by
  rw [readParts_blanks (Text.leaves_cons.mpr h), readParts_cons (readPart_mark c)]

end

/-! ### Layouts with blanks -/

theorem readParts_jsonDate (d : Day) (lower : -2 ^ 31 ≤ d.year) (upper : d.year < 2 ^ 31)
    (parts : List Part) (fields : Fields) (rest : List Char) :
    readParts (jsonDateLayout ++ parts) fields (d.text ++ rest) =
      readParts parts { fields with year := d.year, month := d.month, day := d.day } rest := by
  have hmonth := d.month_le
  have hday := Nat.le_trans d.day_le (daysInMonth_le d.year d.month)
  simp only [jsonDateLayout, List.cons_append, List.nil_append, Day.text, List.append_assoc]
  rw [readParts_cons (readPart_year lower upper (Text.leaves_cons.mpr (by decide))),
    readParts_blanks_mark (by decide),
    readParts_cons (readPart_number .month (fun fields n => { fields with month := n })
      (fun _ => rfl) d.month_pos hmonth (by omega)),
    readParts_blanks_mark (by decide),
    readParts_cons (readPart_number .day (fun fields n => { fields with day := n })
      (fun _ => rfl) d.day_pos hday (by omega))]

/-- The hours and minutes of a clock. -/
theorem readParts_jsonMinute {second : Nat} (h : second < secondsPerDay) (parts : List Part)
    (fields : Fields) (rest : List Char) :
    readParts (jsonMinuteLayout ++ parts) fields
        (padded 2 (second / 3600) ++ ':' :: (padded 2 (second / 60 % 60) ++ rest)) =
      readParts parts { fields with hour := second / 3600, minute := second / 60 % 60 } rest := by
  have hs : second < 86400 := h
  simp only [jsonMinuteLayout, List.cons_append, List.nil_append]
  rw [readParts_cons (readPart_number .hour (fun fields n => { fields with hour := n })
      (fun _ => rfl) (Nat.zero_le _) (show second / 3600 ≤ 23 by omega) (by omega)),
    readParts_blanks_mark (by decide),
    readParts_cons (readPart_number .minute (fun fields n => { fields with minute := n })
      (fun _ => rfl) (Nat.zero_le _) (show second / 60 % 60 ≤ 59 by omega) (by omega))]

theorem readPart_fraction (fields : Fields) (none : fields.nano = 0) {nano : Nat}
    (h : nano < nanosPerSecond) {rest : List Char} (digits : Leaves Char.isDigit rest)
    (point : Leaves (· == '.') rest) :
    readPart .fraction fields (fractionText nano ++ rest) = .ok ({ fields with nano := nano }, rest) := by
  obtain ⟨rfl, text⟩ | ⟨places, text, -, read⟩ := readNanos_fractionText h
  · rw [text, List.nil_append, readPart, ← none]
    rintro more rfl
    exact absurd (Text.leaves_cons.mp point) (by decide)
  · rw [text, List.cons_append, readPart, read rest digits]
    rfl

/-- What may come after the seconds of a clock: no digit, point or blank. -/
structure EndsClock (rest : List Char) : Prop where
  digits : Leaves Char.isDigit rest
  point : Leaves (· == '.') rest
  blank : Leaves Text.isBlank rest

theorem endsClock_nil : EndsClock [] := ⟨Text.leaves_nil, Text.leaves_nil, Text.leaves_nil⟩

/-- The seconds of a clock. A leap second counts as second 60, wherever it stands. -/
theorem readParts_jsonSecond (fields : Fields) (none : fields.nano = 0) {second nano : Nat}
    (hs : second ≤ 60) (hn : nano < nanosPerSecond) {rest : List Char} (ends : EndsClock rest) :
    readParts jsonSecondLayout fields (':' :: (padded 2 second ++ (fractionText nano ++ rest))) =
      .ok ({ fields with second := second, nano := nano }, rest) := by
  have fraction := readPart_fraction { fields with second := second } none hn ends.digits ends.point
  rw [jsonSecondLayout, readParts_blanks_mark (by decide),
    readParts_cons (readPart_number .second (fun fields n => { fields with second := n })
      (fun _ => rfl) (Nat.zero_le _) hs (by omega)),
    readParts_cons fraction, readParts_blanks ends.blank, readParts]

end Calendar

open Calendar

/-- The fields that the text of a calendar and a clock shows. -/
def LocalTime.fields (t : LocalTime) : Fields where
  year := t.day.year
  month := t.day.month
  day := t.day.day
  hour := t.second / 3600
  minute := t.second / 60 % 60
  second := t.second % 60 + t.nano / nanosPerSecond
  nano := t.nano % nanosPerSecond

namespace Calendar

/-- The text of a clock is read as its fields, even if it tells no time. -/
theorem readParts_jsonTime {second nano : Nat} (hs : second < secondsPerDay)
    (hn : nano < 2 * nanosPerSecond) {fields : Fields} (none : fields.nano = 0)
    {rest : List Char} (ends : EndsClock rest) :
    readParts jsonTimeLayout fields (clockText second nano ++ rest) =
      .ok (⟨fields.year, fields.month, fields.day, second / 3600, second / 60 % 60,
        second % 60 + nano / nanosPerSecond, nano % nanosPerSecond⟩, rest) := by
  have leap : second % 60 + nano / nanosPerSecond ≤ 60 := by
    simp only [nanosPerSecond] at *
    omega
  simp only [jsonTimeLayout, clockText, List.append_assoc, List.cons_append]
  rw [readParts_jsonMinute hs]
  exact readParts_jsonSecond { fields with hour := second / 3600, minute := second / 60 % 60 } none
    leap (Nat.mod_lt _ (by decide)) ends

theorem readJsonDate_text (d : Date) : readJsonDate d.text = .ok d := by
  obtain ⟨lower, upper⟩ := d.supported
  have parts := readParts_jsonDate d.day (by omega) (by omega) [.blanks] .zero []
  rw [List.append_nil, readParts_blanks Text.leaves_nil, readParts] at parts
  simp only [readJsonDate, readAll, Date.text, parts, bind, Except.bind, atEnd, List.isEmpty_nil,
    if_true, pure, Except.pure, Fields.date, Date.ofFields?_self, orFault]

theorem readJsonTime_text (t : Time) : readJsonTime t.text = .ok t := by
  have hn := t.nano_lt
  have leap : t.second % 60 + t.nano / nanosPerSecond ≤ 60 := by
    simp only [nanosPerSecond] at *
    omega
  have text : t.text = padded 2 (t.second / 3600) ++ ':' :: (padded 2 (t.second / 60 % 60) ++
      ':' :: (padded 2 (t.second % 60 + t.nano / nanosPerSecond) ++
        (fractionText (t.nano % nanosPerSecond) ++ []))) := by
    simp [Time.text, clockText]
  have minutes := readParts_jsonMinute t.second_lt [] .zero
    (':' :: (padded 2 (t.second % 60 + t.nano / nanosPerSecond) ++
      (fractionText (t.nano % nanosPerSecond) ++ [])))
  have fraction : t.nano % nanosPerSecond < nanosPerSecond := Nat.mod_lt _ (by decide)
  have seconds := readParts_jsonSecond
    ⟨0, 0, 0, t.second / 3600, t.second / 60 % 60, 0, 0⟩ rfl leap fraction endsClock_nil
  rw [List.append_nil jsonMinuteLayout, readParts] at minutes
  rw [readJsonTime, text]
  apply Outcome.bind_of_ok minutes
  simp only [Fields.zero, seconds]
  apply Outcome.bind_of_ok rfl
  rw [Fields.time, Time.ofFields?_clock]
  rfl

theorem readJsonDateTime_text (t : DateTime) : readJsonDateTime t.text = .ok t := by
  obtain ⟨lower, upper⟩ := t.date.supported
  have date := readParts_jsonDate t.date.day (by omega) (by omega)
    (.blanks :: .mark 'T' :: jsonTimeLayout) .zero
    ('T' :: (clockText t.time.second t.time.nano ++ []))
  rw [readParts_blanks_mark (by decide),
    readParts_jsonTime t.time.second_lt t.time.nano_lt rfl endsClock_nil, List.append_nil] at date
  simp only [readJsonDateTime, readAll, DateTime.text, DateTime.toLocal, LocalTime.text,
    date, bind, Except.bind, atEnd, List.isEmpty_nil, if_true, pure, Except.pure,
    Fields.dateTime, Fields.date, Fields.time, Date.ofFields?_self, Time.ofFields?_clock, orFault]

/-! ### Rounded offsets -/

end Calendar

namespace Offset

/-- The seconds of an offset rounded to minutes, half a minute away from zero. -/
def rounded (o : Offset) : Int :=
  let seconds : Int := ((o.seconds.natAbs + 30) / 60 * 60 : Nat)
  if o.seconds < 0 then -seconds else seconds

theorem rounded_mod (o : Offset) : o.rounded % 60 = 0 := by
  unfold rounded
  dsimp only
  split <;> omega

theorem rounded_near (o : Offset) : (o.rounded - o.seconds).natAbs ≤ 30 := by
  unfold rounded
  dsimp only
  split <;> omega

theorem rounded_of_whole {o : Offset} (whole : o.seconds % 60 = 0) : o.rounded = o.wholeMinutes := by
  have near := o.rounded_near
  have mod := o.rounded_mod
  rw [wholeMinutes_of_dvd whole]
  omega

end Offset

namespace Calendar

theorem skipOffsetSeparators_mark (n : Nat) :
    skipOffsetSeparators (':' :: padded 2 n) = padded 2 n := by
  have digits := Text.allDigits_padded 2 n
  obtain ⟨c, rest, text⟩ := List.exists_cons_of_ne_nil (Text.padded_ne_nil 2 n)
  rw [text] at digits ⊢
  have mark : (c == ':') = false := by
    rw [beq_eq_false_iff_ne]
    rintro rfl
    exact absurd digits.head (by decide)
  rw [skipOffsetSeparators, List.dropWhile_cons_of_pos (by decide), List.dropWhile_cons_of_neg]
  simp [mark, isBlank_of_isDigit digits.head]

theorem readJsonOffset_jsonText (o : Offset) : readJsonOffset o.jsonText = .ok (o.rounded, []) := by
  have lower := o.lower
  have upper := o.upper
  simp only [secondsPerDay] at lower upper
  unfold Offset.jsonText Offset.rounded
  by_cases zero : o.seconds = 0
  · rw [if_pos zero, zero]
    rfl
  · rw [if_neg zero]
    have sign : ((minutesText (decide (o.seconds < 0)) ((o.seconds.natAbs + 30) / 60)).take 3).map
        Char.toUpper ≠ ['U', 'T', 'C'] := by
      intro same
      cases negative : decide (o.seconds < 0) with
      | true =>
        rw [negative] at same
        exact absurd (List.head_eq_of_cons_eq same) (by decide)
      | false =>
        rw [negative] at same
        exact absurd (List.head_eq_of_cons_eq same) (by decide)
    rw [readJsonOffset, if_neg sign, readOffset_minutesText (by
      intro n
      rw [skipOffsetSeparators_mark]) (by omega)]
    simp only [decide_eq_true_eq]

theorem endsClock_jsonText (o : Offset) : EndsClock o.jsonText := by
  unfold Offset.jsonText
  split
  · exact ⟨Text.leaves_cons.mpr (by decide), Text.leaves_cons.mpr (by decide),
      Text.leaves_cons.mpr (by decide)⟩
  · exact ⟨leaves_minutesText (by decide) (by decide) _ _,
      leaves_minutesText (by decide) (by decide) _ _,
      leaves_minutesText (by decide) (by decide) _ _⟩

end Calendar

/-! ### Zoned date-times -/

namespace ZonedDateTime

/-- Whether the local calendar shows a year of four digits without sign. -/
def HasPlainYear (z : ZonedDateTime) : Prop :=
  0 ≤ z.localTime.day.year ∧ z.localTime.day.year ≤ 9999

/-- Whether the local clock is ahead or behind by whole minutes. -/
def HasWholeOffset (z : ZonedDateTime) : Prop := z.offset.seconds % 60 = 0

instance (z : ZonedDateTime) : Decidable z.HasPlainYear := inferInstanceAs (Decidable (_ ∧ _))

instance (z : ZonedDateTime) : Decidable z.HasWholeOffset := inferInstanceAs (Decidable (_ = _))

theorem localTime_second_lt (z : ZonedDateTime) : z.localTime.second < secondsPerDay :=
  LocalTime.shift_second_lt z.utc.time.second_lt z.offset.lower z.offset.upper

theorem localTime_nano (z : ZonedDateTime) : z.localTime.nano = z.utc.time.nano :=
  LocalTime.shift_nano _ _

end ZonedDateTime

namespace Calendar

open ZonedDateTime (HasPlainYear HasWholeOffset)

variable {z : ZonedDateTime}

/-- **Reading a stored zoned date-time** comes to the instant at which a clock at the
rounded offset shows what the local clock shows. -/
theorem readJsonZoned_jsonText (year : z.HasPlainYear) : readJsonZoned z.jsonText =
    z.localTime.fields.dateTime >>= fun t => zonedOf t z.offset.rounded := by
  obtain ⟨lower, upper⟩ := year
  have hn : z.localTime.nano < 2 * nanosPerSecond := z.localTime_nano ▸ z.utc.time.nano_lt
  have text : z.jsonText = z.localTime.day.text ++ 'T' ::
      (clockText z.localTime.second z.localTime.nano ++ z.offset.jsonText) := by
    simp [ZonedDateTime.jsonText, LocalTime.text]
  have date := readParts_jsonDate z.localTime.day (by omega) (by omega) [] .zero
    ('T' :: (clockText z.localTime.second z.localTime.nano ++ z.offset.jsonText))
  rw [List.append_nil, readParts] at date
  rw [readJsonZoned, text]
  apply Outcome.bind_of_ok date
  apply Outcome.bind_of_ok (show readDateTimeMark ('T' :: _) = .ok _ from rfl)
  refine Outcome.bind_of_ok
    (readParts_jsonTime z.localTime_second_lt hn rfl (endsClock_jsonText z.offset)) ?_
  apply Outcome.bind_of_ok (readJsonOffset_jsonText z.offset)
  rfl

/-- A stored zoned date-time of whole minutes reads back as it is. -/
theorem readJsonZoned_of_whole (year : z.HasPlainYear) (whole : z.HasWholeOffset) :
    readJsonZoned z.jsonText = .ok z := by
  obtain ⟨lower, upper⟩ := id year
  have shown : z.localTime = z.shown := by
    rw [ZonedDateTime.shown, Offset.wholeMinutes_of_dvd whole]
    rfl
  obtain ⟨time, second, nano⟩ := z.shown_time
  rw [← shown] at second nano
  have fields : z.localTime.fields.dateTime =
      .ok ⟨⟨z.localTime.day, by omega, by omega⟩, time⟩ := by
    have hdate := Date.ofFields?_self ⟨z.localTime.day, by omega, by omega⟩
    have htime := Time.ofFields?_clock time
    rw [second, nano] at htime
    simp only [Fields.dateTime, Fields.date, Fields.time, LocalTime.fields, hdate, htime, orFault]
    rfl
  have normal : z.normal = z := by
    have same : z.offset.truncated = z.offset := by
      have seconds := Offset.wholeMinutes_of_dvd whole
      cases z with
      | mk utc offset =>
        cases offset
        simpa [Offset.truncated] using seconds
    rw [ZonedDateTime.normal, same]
    rfl
  rw [readJsonZoned_jsonText year, fields, Offset.rounded_of_whole whole]
  change zonedOf _ z.offset.wholeMinutes = _
  rw [zonedOf_shown z (by simp only [DateTime.toLocal, second, nano, shown]), normal]

/-- The second and the fraction that a time was made of. -/
theorem seconds_of_ofFields? {hour minute second nano : Nat} {t : Time}
    (h : Time.ofFields? hour minute second nano = some t) (early : second ≠ 60) :
    t.second = hour * 3600 + minute * 60 + second ∧ t.nano = nano := by
  unfold Time.ofFields? at h
  split at h
  · unfold Time.ofSeconds? at h
    split at h
    · cases h
      exact ⟨rfl, rfl⟩
    · cases h
  · cases h

/-- What a zoned date-time was made of. -/
theorem utc_of_zonedOf {t : DateTime} {seconds : Int} {z : ZonedDateTime}
    (h : zonedOf t seconds = .ok z) : z.utc.toLocal = t.toLocal.shift (-seconds) ∧
      -(secondsPerDay : Int) < seconds ∧ seconds < secondsPerDay := by
  obtain ⟨offset, hoffset, h⟩ := Outcome.bind_eq_ok.mp h
  have hoffset := orFault_eq_ok.mp hoffset
  have h := orFault_eq_ok.mp h
  unfold Offset.ofSeconds? at hoffset
  split at hoffset
  · rename_i bounds
    cases hoffset
    obtain ⟨utc, hutc, rfl⟩ := Option.map_eq_some_iff.mp h
    exact ⟨toLocal_of_toDateTime? hutc, bounds⟩
  · cases hoffset

/-- A clock that is set and set back by another amount of almost the same size shows another
second of the day. -/
theorem shift_shift_second_ne {t : LocalTime} (ht : t.second < secondsPerDay) {there back : Int}
    (lower : -(secondsPerDay : Int) < there) (upper : there < secondsPerDay)
    (other : back ≠ there) (near : (back - there).natAbs ≤ 30) :
    ((t.shift there).shift (-back)).second ≠ t.second := by
  have day : secondsPerDay = 86400 := rfl
  have first := LocalTime.shift_second t there
  have second := LocalTime.shift_second (t.shift there) (-back)
  generalize (t.shift there).second = middle at *
  intro same
  rw [same] at second
  split_ifs at first second <;> omega

/-- Odd seconds move the second of the minute. -/
theorem shift_second_mod_ne {t : LocalTime} (ht : t.second < secondsPerDay) {seconds : Int}
    (lower : -(secondsPerDay : Int) < seconds) (upper : seconds < secondsPerDay)
    (odd : seconds % 60 ≠ 0) : (t.shift seconds).second % 60 ≠ t.second % 60 := by
  have day : secondsPerDay = 86400 := rfl
  have second := LocalTime.shift_second t seconds
  generalize (t.shift seconds).second = moved at *
  split_ifs at second <;> omega

/-- A stored leap second of an odd local clock is read as a second like any other. -/
theorem nano_of_odd_leap (odd : ¬z.HasWholeOffset) (leap : nanosPerSecond ≤ z.utc.time.nano)
    {t : DateTime} (h : z.localTime.fields.dateTime = .ok t) : t.time.nano < z.utc.time.nano := by
  obtain ⟨date, -, h⟩ := Outcome.bind_eq_ok.mp h
  obtain ⟨time, htime, h⟩ := Outcome.bind_eq_ok.mp h
  cases h
  have final : z.utc.toLocal.second % 60 = 59 := z.utc.time.leap_last leap
  have moved : z.localTime.second % 60 ≠ z.utc.toLocal.second % 60 :=
    shift_second_mod_ne z.utc.time.second_lt z.offset.lower z.offset.upper odd
  have small := z.utc.time.nano_lt
  have htime := orFault_eq_ok.mp htime
  simp only [LocalTime.fields, z.localTime_nano, nanosPerSecond] at *
  obtain ⟨-, fraction⟩ := seconds_of_ofFields? htime (by omega)
  change time.nano < _
  omega

/-- A stored second that is no leap second is read as the local clock shows it. -/
theorem second_of_fields (early : z.utc.time.nano < nanosPerSecond) {t : DateTime}
    (h : z.localTime.fields.dateTime = .ok t) : t.time.second = z.localTime.second := by
  obtain ⟨date, -, h⟩ := Outcome.bind_eq_ok.mp h
  obtain ⟨time, htime, h⟩ := Outcome.bind_eq_ok.mp h
  cases h
  have htime := orFault_eq_ok.mp htime
  simp only [LocalTime.fields, z.localTime_nano, nanosPerSecond] at *
  obtain ⟨whole, -⟩ := seconds_of_ofFields? htime (by omega)
  change time.second = _
  omega

/-- **An offset of odd seconds moves the instant.** If the stored form of a zoned date-time
with such an offset can be read, it names another instant: in a leap second the fraction
differs, and otherwise the second of the day. -/
theorem instant_moves_of_odd (year : z.HasPlainYear) (odd : ¬z.HasWholeOffset)
    {z' : ZonedDateTime} (h : readJsonZoned z.jsonText = .ok z') : z.sameInstant z' = false := by
  rw [readJsonZoned_jsonText year] at h
  obtain ⟨t, ht, h⟩ := Outcome.bind_eq_ok.mp h
  obtain ⟨utc, -, -⟩ := utc_of_zonedOf h
  rw [ZonedDateTime.sameInstant, beq_eq_false_iff_ne]
  intro same
  rw [← same] at utc
  by_cases leap : nanosPerSecond ≤ z.utc.time.nano
  · have nano : z.utc.time.nano = t.time.nano := by
      have shifted := congrArg LocalTime.nano utc
      rwa [LocalTime.shift_nano] at shifted
    have less := nano_of_odd_leap odd leap ht
    omega
  · have second := second_of_fields (Nat.lt_of_not_le leap) ht
    have other : z.offset.rounded ≠ z.offset.seconds := by
      intro whole
      apply odd
      rw [ZonedDateTime.HasWholeOffset, ← whole]
      exact z.offset.rounded_mod
    have moved := shift_shift_second_ne (t := z.utc.toLocal) z.utc.time.second_lt z.offset.lower
      z.offset.upper other z.offset.rounded_near
    -- The shift only looks at the second of the day, which both clocks share.
    have shown := congrArg LocalTime.second utc
    rw [LocalTime.shift_second] at shown moved
    simp only [DateTime.toLocal, second] at shown
    exact moved shown.symm

end Calendar
end CatalogQuery
