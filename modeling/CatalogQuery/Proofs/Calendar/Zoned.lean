import CatalogQuery.Proofs.Calendar.Fields
import CatalogQuery.Proofs.Outcome

/-!
# Reading zoned date-times back

The query text of a zoned date-time shows the local calendar and clock at the
offset without its odd seconds. A reader of query text takes years of four digits
without sign and nothing else, so the text reads back exactly if the local year it
shows lies between 0 and 9999, and then names the same instant.
-/

namespace CatalogQuery

open Text (padded Leaves AllDigits)

namespace ZonedDateTime

/-- What the local calendar and clock show in query text. -/
def shown (z : ZonedDateTime) : LocalTime := z.utc.toLocal.shift z.offset.wholeMinutes

/-- Whether the year that query text shows has four digits and no sign. -/
def readable (z : ZonedDateTime) : Bool := decide (0 ≤ z.shown.day.year ∧ z.shown.day.year ≤ 9999)

/-- The same instant at the offset without its odd seconds. -/
def normal (z : ZonedDateTime) : ZonedDateTime := z.withOffset z.offset.truncated

theorem sameInstant_normal (z : ZonedDateTime) : z.sameInstant z.normal = true := by
  simp [sameInstant, normal, withOffset]

theorem wholeMinutes_truncated (o : Offset) : o.truncated.wholeMinutes = o.wholeMinutes :=
  Offset.wholeMinutes_of_dvd o.wholeMinutes_mod

theorem queryText_normal (z : ZonedDateTime) : z.normal.queryText = z.queryText := by
  simp only [queryText, Offset.text, normal, withOffset, wholeMinutes_truncated]

/-- The shown clock tells a time: whole minutes leave leap seconds at the end of a
minute. -/
theorem shown_time (z : ZonedDateTime) :
    ∃ t : Time, t.second = z.shown.second ∧ t.nano = z.shown.nano := by
  have lower := z.offset.wholeMinutes_lower
  have upper := z.offset.wholeMinutes_upper
  have second_lt : z.shown.second < Calendar.secondsPerDay :=
    LocalTime.shift_second_lt z.utc.time.second_lt lower upper
  have second_mod : z.shown.second % 60 = z.utc.time.second % 60 :=
    LocalTime.shift_second_mod (t := z.utc.toLocal) z.utc.time.second_lt lower upper
  have nano : z.shown.nano = z.utc.time.nano := LocalTime.shift_nano _ _
  refine ⟨⟨z.shown.second, z.shown.nano, second_lt, nano ▸ z.utc.time.nano_lt, ?_⟩, rfl, rfl⟩
  rw [nano, second_mod]
  exact z.utc.time.leap_last

theorem toDateTime?_toLocal (t : DateTime) : t.toLocal.toDateTime? = some t := by
  have date : Date.ofDay? t.date.day = some t.date := dif_pos t.date.supported
  have time : Time.ofSeconds? t.time.second t.time.nano = some t.time :=
    dif_pos ⟨t.time.second_lt, t.time.nano_lt, t.time.leap_last⟩
  simp only [LocalTime.toDateTime?, DateTime.toLocal, date, time]

/-- The instant at which the shown clock shows what it shows is the same one. -/
theorem ofLocal?_shown (z : ZonedDateTime) {t : DateTime} (h : t.toLocal = z.shown) :
    ofLocal? t z.offset.truncated = some z.normal := by
  have back : z.shown.shift (-z.offset.truncated.seconds) = z.utc.toLocal :=
    LocalTime.shift_neg (t := z.utc.toLocal) z.utc.time.second_lt z.offset.wholeMinutes_lower
      z.offset.wholeMinutes_upper
  rw [ofLocal?, h, back, toDateTime?_toLocal]
  rfl

end ZonedDateTime

namespace Calendar

open ZonedDateTime (readable normal shown)

/-! ### Fixed widths -/

theorem readFixed_padded {width n : Nat} (hw : 0 < width) (hn : n < 10 ^ width)
    (rest : List Char) : readFixed width (padded width n ++ rest) = .ok (n, rest) := by
  have length := Text.length_padded hw hn
  have taken : (padded width n ++ rest).take width = padded width n := List.take_left' length
  have left : (padded width n ++ rest).drop width = rest := List.drop_left' length
  have digits : (padded width n).all Char.isDigit = true :=
    List.all_eq_true.mpr (Text.allDigits_padded width n)
  rw [readFixed, taken, left, if_pos ⟨length, digits⟩, Text.numberOf_padded]

theorem readMark_cons (c : Char) (rest : List Char) : readMark c (c :: rest) = .ok rest :=
  if_pos rfl

theorem readFixedMark_cons (c : Char) (rest : List Char) :
    readFixedMark c (c :: rest) = .ok rest := by
  rw [readFixedMark, readMark_cons]
  rfl

theorem length_le_byteLength (text : List Char) : text.length ≤ byteLength text := by
  induction text with
  | nil => exact Nat.le_refl _
  | cons c rest ih =>
    have := c.utf8Size_pos
    rw [byteLength, List.length_cons]
    omega

theorem readOffsetPair_padded {n : Nat} (hn : n < 100) (rest : List Char) :
    readOffsetPair (padded 2 n ++ rest) = .ok (n, rest) := by
  have long := length_le_byteLength (padded 2 n ++ rest)
  rw [List.length_append, Text.length_padded (by decide) hn] at long
  rw [readOffsetPair, if_neg (by omega), readFixed_padded (by decide) hn]

/-- An offset in minutes is read whatever way the mark between hours and minutes is read. -/
theorem readOffset_minutesText {separate : List Char → Except Fault (List Char)}
    (apart : ∀ n, separate (':' :: padded 2 n) = .ok (padded 2 n)) {negative : Bool}
    {minutes : Nat} (h : minutes < 6000) :
    readOffset separate (minutesText negative minutes) =
      .ok (if negative then -((minutes * 60 : Nat) : Int) else ((minutes * 60 : Nat) : Int),
        []) := by
  have digits : readOffsetDigits separate
      (padded 2 (minutes / 60) ++ ':' :: padded 2 (minutes % 60)) = .ok (minutes * 60, []) := by
    have last := readOffsetPair_padded (show minutes % 60 < 100 by omega) []
    rw [List.append_nil] at last
    have whole : minutes / 60 * 3600 + minutes % 60 * 60 = minutes * 60 := by omega
    apply Outcome.bind_of_ok (readOffsetPair_padded (by omega) _)
    apply Outcome.bind_of_ok (apart _)
    apply Outcome.bind_of_ok last
    simp only [show minutes % 60 < 60 by omega, if_true, whole]
    rfl
  cases negative with
  | false => simp [minutesText, readOffset, digits, Except.map]
  | true => simp [minutesText, readOffset, digits, Except.map]

theorem zonedOf_shown (z : ZonedDateTime) {t : DateTime} (h : t.toLocal = z.shown) :
    zonedOf t z.offset.wholeMinutes = .ok z.normal := by
  have offset : Offset.ofSeconds? z.offset.wholeMinutes = some z.offset.truncated :=
    dif_pos ⟨z.offset.wholeMinutes_lower, z.offset.wholeMinutes_upper⟩
  rw [zonedOf, offset]
  change orFault .outOfRange (ZonedDateTime.ofLocal? t z.offset.truncated) = _
  rw [z.ofLocal?_shown h]
  rfl

/-! ### Whole texts -/

theorem readFixedDate_text (d : Date) (lower : 0 ≤ d.day.year) (upper : d.day.year ≤ 9999)
    (rest : List Char) : readFixedDate (d.text ++ rest) = .ok (d, rest) := by
  have hday := Nat.le_trans d.day.day_le (daysInMonth_le d.day.year d.day.month)
  have hmonth := d.day.month_le
  have hyear : d.day.year.natAbs < 10 ^ 4 := by omega
  have back : ((d.day.year.natAbs : Nat) : Int) = d.day.year := by omega
  have year : yearText d.day.year = padded 4 d.day.year.natAbs := by
    rw [yearText, if_neg (by omega), if_pos (by omega)]
  simp only [Date.text, Day.text, year, List.append_assoc, List.cons_append]
  apply Outcome.bind_of_ok (readFixed_padded (by decide) hyear _)
  apply Outcome.bind_of_ok (readFixedMark_cons _ _)
  refine Outcome.bind_of_ok (readFixed_padded (by decide)
    (show d.day.month < 10 ^ 2 by omega) _) ?_
  apply Outcome.bind_of_ok (readFixedMark_cons _ _)
  apply Outcome.bind_of_ok (readFixed_padded (by decide) (show d.day.day < 10 ^ 2 by omega) _)
  simp only [back, Date.ofFields?_self]
  rfl

/-- The fraction of a clock is read if neither a digit nor a point comes after it. -/
theorem readFraction_text {nano : Nat} (h : nano < nanosPerSecond) {rest : List Char}
    (digits : Leaves Char.isDigit rest) (point : Leaves (· == '.') rest) :
    readFraction (fractionText nano ++ rest) = .ok (nano, rest) := by
  obtain ⟨rfl, text⟩ | ⟨places, text, -, read⟩ := readNanos_fractionText h
  · rw [text, List.nil_append]
    unfold readFraction
    split
    · exact absurd (Text.leaves_cons.mp point) (by decide)
    · rfl
  · rw [text]
    exact read rest digits

theorem readFixedTime_text (t : Time) {rest : List Char} (digits : Leaves Char.isDigit rest)
    (point : Leaves (· == '.') rest) : readFixedTime (t.text ++ rest) = .ok (t, rest) := by
  have hs : t.second < 86400 := t.second_lt
  have hn : t.nano < 2 * 1000000000 := t.nano_lt
  have hsecond : t.second % 60 + t.nano / nanosPerSecond < 10 ^ 2 := by
    simp only [nanosPerSecond]
    omega
  have hnano : t.nano % nanosPerSecond < nanosPerSecond := Nat.mod_lt _ (by decide)
  simp only [Time.text, clockText, List.append_assoc, List.cons_append]
  refine Outcome.bind_of_ok (readFixed_padded (by decide)
    (show t.second / 3600 < 10 ^ 2 by omega) _) ?_
  apply Outcome.bind_of_ok (readFixedMark_cons _ _)
  refine Outcome.bind_of_ok (readFixed_padded (by decide)
    (show t.second / 60 % 60 < 10 ^ 2 by omega) _) ?_
  apply Outcome.bind_of_ok (readFixedMark_cons _ _)
  apply Outcome.bind_of_ok (readFixed_padded (by decide) hsecond _)
  apply Outcome.bind_of_ok (readFraction_text hnano digits point)
  simp only [Time.ofFields?_clock]
  rfl

theorem leaves_minutesText {p : Char → Bool} (plus : p '+' = false) (minus : p '-' = false)
    (negative : Bool) (minutes : Nat) : Leaves p (minutesText negative minutes) := by
  cases negative
  · exact Text.leaves_cons.mpr plus
  · exact Text.leaves_cons.mpr minus

theorem le_byteLength_text (t : DateTime) (negative : Bool) (minutes : Nat) :
    19 ≤ byteLength (t.text ++ minutesText negative minutes) := by
  have wide := fun n => Text.le_length_padded 2 n
  have year : 4 ≤ (yearText t.date.day.year).length := by
    have := Text.le_length_padded 4 t.date.day.year.natAbs
    unfold yearText
    split_ifs
    · exact Nat.le_succ_of_le this
    · exact this
    · exact Nat.le_succ_of_le this
  have month := wide t.date.day.month
  have day := wide t.date.day.day
  have hour := wide (t.time.second / 3600)
  have minute := wide (t.time.second / 60 % 60)
  have second := wide (t.time.second % 60 + t.time.nano / nanosPerSecond)
  have long : 19 ≤ (t.text ++ minutesText negative minutes).length := by
    simp only [DateTime.text, DateTime.toLocal, LocalTime.text, Day.text, clockText, minutesText,
      List.length_append, List.length_cons]
    omega
  exact Nat.le_trans long (length_le_byteLength _)

/-- A date-time of a year with four digits and an offset in minutes are read as what
they were written for. -/
theorem readZoned_text (t : DateTime) (lower : 0 ≤ t.date.day.year)
    (upper : t.date.day.year ≤ 9999) {negative : Bool} {minutes : Nat} (h : minutes < 1440) :
    readZoned (t.text ++ minutesText negative minutes) = zonedOf t
      (if negative then -((minutes * 60 : Nat) : Int) else ((minutes * 60 : Nat) : Int)) := by
  have long := le_byteLength_text t negative minutes
  have mark : orFault .invalid
      (readDateTimeMark ('T' :: (t.time.text ++ minutesText negative minutes))).toOption =
        .ok (t.time.text ++ minutesText negative minutes) := rfl
  have parts : t.text ++ minutesText negative minutes =
      t.date.text ++ 'T' :: (t.time.text ++ minutesText negative minutes) := by
    simp [DateTime.text, LocalTime.text, DateTime.toLocal, Date.text, Time.text]
  rw [readZoned, if_neg (by omega), parts]
  apply Outcome.bind_of_ok (readFixedDate_text t.date lower upper _)
  apply Outcome.bind_of_ok mark
  have digits : Leaves Char.isDigit (minutesText negative minutes) :=
    leaves_minutesText (by decide) (by decide) _ _
  have point : Leaves (· == '.') (minutesText negative minutes) :=
    leaves_minutesText (by decide) (by decide) _ _
  apply Outcome.bind_of_ok (readFixedTime_text t.time digits point)
  apply Outcome.bind_of_ok (readOffset_minutesText (fun _ => readMark_cons _ _) (by omega))
  exact Outcome.bind_of_ok rfl rfl

/-- A text that starts with a sign names no zoned date-time. -/
theorem readZoned_sign {c : Char} (h : c.isDigit = false) (rest : List Char) :
    (readZoned (c :: rest)).toOption = none := by
  have none : ¬ (((c :: rest).take 4).length = 4 ∧
      ((c :: rest).take 4).all Char.isDigit = true) := by
    rintro ⟨-, all⟩
    simp [h] at all
  rw [readZoned]
  split
  · rfl
  · rw [readFixedDate, readFixed, if_neg none]
    rfl

/-- The sign and the minutes of a written offset make its seconds. -/
theorem signed_wholeMinutes (o : Offset) :
    (if decide (o.wholeMinutes < 0) = true then
        -((o.wholeMinutes.natAbs / 60 * 60 : Nat) : Int)
      else ((o.wholeMinutes.natAbs / 60 * 60 : Nat) : Int)) = o.wholeMinutes := by
  have whole := o.wholeMinutes_mod
  simp only [decide_eq_true_eq]
  split <;> omega

/-- **Zoned date-times read back as far as their years go.** The text reads back
exactly if the local year it shows has four digits, and then names the same instant
at the offset without odd seconds. -/
theorem readZoned_queryText (z : ZonedDateTime) :
    (readZoned z.queryText).toOption = if z.readable then some z.normal else none := by
  have text : z.queryText = z.shown.text ++ z.offset.text := rfl
  by_cases h : z.readable = true
  · obtain ⟨lower, upper⟩ := of_decide_eq_true h
    obtain ⟨time, second, nano⟩ := z.shown_time
    obtain ⟨t, ht⟩ : ∃ t : DateTime, t.toLocal = z.shown :=
      ⟨⟨⟨z.shown.day, by omega, by omega⟩, time⟩, by simp only [DateTime.toLocal, second, nano]⟩
    have day : t.date.day = z.shown.day := congrArg LocalTime.day ht
    have read : readZoned (t.text ++ z.offset.text) = .ok z.normal := by
      rw [Offset.text, readZoned_text t (day ▸ lower) (day ▸ upper) z.offset.minutes_lt,
        signed_wholeMinutes, zonedOf_shown z ht]
    rw [if_pos h, text, ← ht]
    exact Outcome.toOption_eq_some.mpr read
  · have year : ¬ (0 ≤ z.shown.day.year ∧ z.shown.day.year ≤ 9999) := fun year =>
      h (decide_eq_true year)
    rw [if_neg h, text, LocalTime.text, Day.text, yearText]
    by_cases negative : z.shown.day.year < 0
    · rw [if_pos negative]
      exact readZoned_sign (by decide) _
    · rw [if_neg negative, if_neg (by omega)]
      exact readZoned_sign (by decide) _

/-! ### What was read is readable -/

theorem readFixed_lt {count n : Nat} {text rest : List Char}
    (h : readFixed count text = .ok (n, rest)) : n < 10 ^ count := by
  simp only [readFixed] at h
  split at h
  case isTrue full =>
    have digits := Text.ofDigitChars_lt (List.all_eq_true.mp full.2) 0
    rw [full.1, Nat.zero_add, Nat.one_mul] at digits
    cases h
    exact digits
  case isFalse => cases h

theorem orFault_eq_ok {α : Type} {fault : Fault} {value : Option α} {a : α} :
    orFault fault value = .ok a ↔ value = some a := by
  cases value <;> simp [orFault]

theorem year_of_ofFields? {year : Int} {month day : Nat} {d : Date}
    (h : Date.ofFields? year month day = some d) : d.day.year = year := by
  unfold Date.ofFields? Day.ofFields? at h
  split at h
  · simp only [Option.bind_some, Date.ofDay?] at h
    split at h
    · cases h
      rfl
    · cases h
  · cases h

theorem readFixedDate_year {text rest : List Char} {d : Date}
    (h : readFixedDate text = .ok (d, rest)) : 0 ≤ d.day.year ∧ d.day.year ≤ 9999 := by
  obtain ⟨⟨year, rest⟩, hyear, h⟩ := Outcome.bind_eq_ok.mp h
  obtain ⟨rest, -, h⟩ := Outcome.bind_eq_ok.mp h
  obtain ⟨⟨month, rest⟩, -, h⟩ := Outcome.bind_eq_ok.mp h
  obtain ⟨rest, -, h⟩ := Outcome.bind_eq_ok.mp h
  obtain ⟨⟨day, rest⟩, -, h⟩ := Outcome.bind_eq_ok.mp h
  obtain ⟨date, hdate, h⟩ := Outcome.bind_eq_ok.mp h
  cases h
  have short : year < 10 ^ 4 := readFixed_lt hyear
  have same : d.day.year = year := year_of_ofFields? (orFault_eq_ok.mp hdate)
  omega

theorem readOffsetDigits_mod {text rest : List Char} {seconds : Nat}
    (h : readOffsetDigits (readMark ':') text = .ok (seconds, rest)) : seconds % 60 = 0 := by
  obtain ⟨⟨hours, rest⟩, -, h⟩ := Outcome.bind_eq_ok.mp h
  obtain ⟨rest, -, h⟩ := Outcome.bind_eq_ok.mp h
  obtain ⟨⟨minutes, rest⟩, -, h⟩ := Outcome.bind_eq_ok.mp h
  dsimp only at h
  split at h
  · cases h
    omega
  · cases h

theorem readOffset_mod {text rest : List Char} {seconds : Int}
    (h : readOffset (readMark ':') text = .ok (seconds, rest)) : seconds % 60 = 0 := by
  unfold readOffset at h
  split at h
  · cases h
  · split_ifs at h
    · cases h
      rfl
    · obtain ⟨⟨n, rest⟩, digits, h⟩ := Outcome.map_eq_ok.mp h
      have := readOffsetDigits_mod digits
      cases h
      omega
    · obtain ⟨⟨n, rest⟩, digits, h⟩ := Outcome.map_eq_ok.mp h
      have := readOffsetDigits_mod digits
      cases h
      omega

theorem toLocal_of_toDateTime? {t : LocalTime} {utc : DateTime} (h : t.toDateTime? = some utc) :
    utc.toLocal = t := by
  simp only [LocalTime.toDateTime?, Date.ofDay?, Time.ofSeconds?] at h
  split_ifs at h
  cases h
  rfl

/-- The shown clock of a zoned date-time is the one it was read from. -/
theorem shown_of_zonedOf {t : DateTime} {seconds : Int} {z : ZonedDateTime}
    (whole : seconds % 60 = 0) (h : zonedOf t seconds = .ok z) : z.shown = t.toLocal := by
  obtain ⟨offset, hoffset, h⟩ := Outcome.bind_eq_ok.mp h
  have hoffset := orFault_eq_ok.mp hoffset
  have h := orFault_eq_ok.mp h
  unfold Offset.ofSeconds? at hoffset
  split at hoffset
  · obtain ⟨lower, upper⟩ := ‹_ ∧ _›
    cases hoffset
    obtain ⟨utc, hutc, rfl⟩ := Option.map_eq_some_iff.mp h
    have back : (t.toLocal.shift (-seconds)).shift (- -seconds) = t.toLocal :=
      LocalTime.shift_neg t.time.second_lt (by omega) (by omega)
    rw [ZonedDateTime.shown, Offset.wholeMinutes_of_dvd whole, toLocal_of_toDateTime? hutc]
    rwa [Int.neg_neg] at back
  · cases hoffset

/-- Every zoned date-time that was read from query text can be read again. -/
theorem readable_of_readZoned {text : List Char} {z : ZonedDateTime} (h : readZoned text = .ok z) :
    z.readable = true := by
  unfold readZoned at h
  split at h
  · cases h
  · obtain ⟨⟨date, rest⟩, hdate, h⟩ := Outcome.bind_eq_ok.mp h
    obtain ⟨rest, -, h⟩ := Outcome.bind_eq_ok.mp h
    obtain ⟨⟨time, rest⟩, -, h⟩ := Outcome.bind_eq_ok.mp h
    obtain ⟨⟨seconds, rest⟩, hseconds, h⟩ := Outcome.bind_eq_ok.mp h
    obtain ⟨-, -, h⟩ := Outcome.bind_eq_ok.mp h
    have shown := shown_of_zonedOf (readOffset_mod hseconds) h
    rw [ZonedDateTime.readable, shown]
    exact decide_eq_true (readFixedDate_year hdate)

end Calendar
end CatalogQuery
