import CatalogQuery.Calendar.Printer
import CatalogQuery.Calendar.Reader
import CatalogQuery.Proofs.Calendar.Shift
import CatalogQuery.Proofs.Text.Digits

namespace CatalogQuery

open Text (padded Leaves AllDigits)

namespace Calendar

/-! ### Numbers -/

theorem readNumber_append {limit : Nat} {digits rest : List Char} (hd : AllDigits digits)
    (hne : digits ≠ []) (hl : digits.length ≤ limit)
    (h : digits.length = limit ∨ Leaves Char.isDigit rest) :
    readNumber limit (digits ++ rest) = .ok (Text.numberOf digits, rest) := by
  unfold readNumber
  rw [Text.takeDigits_append hd hl h]
  obtain ⟨c, digits, rfl⟩ := List.exists_cons_of_ne_nil hne
  rfl

theorem readNumber_padded {limit width n : Nat} {rest : List Char} (hw : 0 < width)
    (hn : n < 10 ^ width) (hl : width ≤ limit) (h : width = limit ∨ Leaves Char.isDigit rest) :
    readNumber limit (padded width n ++ rest) = .ok (n, rest) := by
  have length := Text.length_padded hw hn
  have short : (padded width n).length ≤ limit := by rwa [length]
  have full : (padded width n).length = limit ∨ Leaves Char.isDigit rest := by rwa [length]
  rw [readNumber_append (Text.allDigits_padded width n) (Text.padded_ne_nil width n) short full,
    Text.numberOf_padded]

theorem readWithin_padded {low high n : Nat} (hlow : low ≤ n) (hhigh : n ≤ high) (hn : n < 100)
    (rest : List Char) : readWithin low high (padded 2 n ++ rest) = .ok (n, rest) := by
  unfold readWithin
  rw [readNumber_padded (by decide) hn (Nat.le_refl 2) (.inl rfl)]
  exact if_pos ⟨hlow, hhigh⟩

theorem isBlank_of_isDigit {c : Char} (h : c.isDigit = true) : Text.isBlank c = false := by
  have bounds := Char.isDigit_iff_toNat.mp h
  simp only [Char.reduceToNat] at bounds
  exact Text.isBlank_eq_false (by omega) (by omega)

theorem leaves_isBlank_padded (width n : Nat) (rest : List Char) :
    Leaves Text.isBlank (padded width n ++ rest) := by
  have hd := Text.allDigits_padded width n
  obtain ⟨c, digits, h⟩ := List.exists_cons_of_ne_nil (Text.padded_ne_nil width n)
  rw [h] at hd ⊢
  exact Text.leaves_cons.mpr (isBlank_of_isDigit hd.head)

/-! ### Years -/

theorem leaves_isBlank_yearText (year : Int) (rest : List Char) :
    Leaves Text.isBlank (yearText year ++ rest) := by
  unfold yearText
  split
  · exact Text.leaves_cons.mpr (by decide)
  · split
    · exact leaves_isBlank_padded _ _ _
    · exact Text.leaves_cons.mpr (by decide)

theorem readYear_yearText {year : Int} (lower : -2 ^ 31 ≤ year) (upper : year < 2 ^ 31)
    {rest : List Char} (h : Leaves Char.isDigit rest) :
    readYear (yearText year ++ rest) = .ok (year, rest) := by
  have signed : readNumber (padded 4 year.natAbs ++ rest).length (padded 4 year.natAbs ++ rest) =
      .ok (year.natAbs, rest) := by
    rw [readNumber_append (Text.allDigits_padded 4 year.natAbs) (Text.padded_ne_nil _ _)
      (by simp) (.inr h), Text.numberOf_padded]
  unfold yearText
  by_cases negative : year < 0
  · have fits : year.natAbs ≤ 2147483648 := by omega
    have back : -(year.natAbs : Int) = year := by omega
    rw [if_pos negative, List.cons_append, readYear, signed]
    simp only [bind, Except.bind, fits, if_true, back]
    rfl
  · have back : (year.natAbs : Int) = year := by omega
    rw [if_neg negative]
    by_cases short : year < 10000
    · have unsigned : readNumber 4 (padded 4 year.natAbs ++ rest) = .ok (year.natAbs, rest) :=
        readNumber_padded (by decide) (show year.natAbs < 10 ^ 4 by omega) (Nat.le_refl 4)
          (.inl rfl)
      have hd := Text.allDigits_padded 4 year.natAbs
      obtain ⟨c, digits, hc⟩ := List.exists_cons_of_ne_nil (Text.padded_ne_nil 4 year.natAbs)
      rw [if_pos short]
      -- A digit comes first, so the reader takes no sign and at most four digits.
      rw [hc] at hd unsigned ⊢
      rw [List.cons_append] at unsigned ⊢
      unfold readYear
      split
      · cases ‹c :: _ = _›
        exact absurd hd.head (by decide)
      · cases ‹c :: _ = _›
        exact absurd hd.head (by decide)
      · rw [unsigned]
        simp only [bind, Except.bind, back]
        rfl
    · have fits : year.natAbs < 2147483648 := by omega
      rw [if_neg short, List.cons_append, readYear, signed]
      simp only [bind, Except.bind, fits, if_true, back]
      rfl

/-! ### Fractions of a second -/

theorem readNanos_padded {width n : Nat} {rest : List Char} (hw : 0 < width) (hl : width ≤ 9)
    (hn : n < 10 ^ width) (h : Leaves Char.isDigit rest) :
    readNanos (padded width n ++ rest) = .ok (n * 10 ^ (9 - width), rest) := by
  have length := Text.length_padded hw hn
  unfold readNanos
  rw [readNumber_padded hw hn hl (.inr h)]
  simp only [bind, Except.bind, List.length_append, length, Nat.add_sub_cancel,
    Text.dropWhile_of_leaves h]
  rfl

/-- Digits stand for as many nanoseconds as they have places left of nine. -/
theorem readNanos_scaled {width n nano : Nat} (hw : 0 < width) (hl : width ≤ 9)
    (hn : n < 10 ^ width) (scaled : n * 10 ^ (9 - width) = nano) :
    AllDigits (padded width n) ∧
      ∀ rest, Leaves Char.isDigit rest → readNanos (padded width n ++ rest) = .ok (nano, rest) := by
  constructor
  · exact Text.allDigits_padded _ _
  · intro rest hr
    rw [readNanos_padded hw hl hn hr, scaled]

/-- A fraction is left out if it is zero, and otherwise a point with digits that are
read as the nanoseconds they were written for. -/
theorem readNanos_fractionText {nano : Nat} (h : nano < nanosPerSecond) :
    (nano = 0 ∧ fractionText nano = []) ∨
      ∃ digits, fractionText nano = '.' :: digits ∧ AllDigits digits ∧
        ∀ rest, Leaves Char.isDigit rest → readNanos (digits ++ rest) = .ok (nano, rest) := by
  simp only [nanosPerSecond] at h
  unfold fractionText
  by_cases zero : nano = 0
  · exact .inl ⟨zero, if_pos zero⟩
  · right
    rw [if_neg zero]
    by_cases millis : nano % 1000000 = 0
    · exact ⟨_, if_pos millis, readNanos_scaled (by decide) (by decide) (by omega) (by omega)⟩
    · rw [if_neg millis]
      by_cases micros : nano % 1000 = 0
      · exact ⟨_, if_pos micros, readNanos_scaled (by decide) (by decide) (by omega) (by omega)⟩
      · exact ⟨_, if_neg micros, readNanos_scaled (by decide) (by decide) (by omega) (by omega)⟩

end Calendar

open Calendar

/-- The hour, minute, second and fraction that a clock shows make its time. -/
theorem Time.ofFields?_clock (t : Time) :
    Time.ofFields? (t.second / 3600) (t.second / 60 % 60) (t.second % 60 + t.nano / nanosPerSecond)
      (t.nano % nanosPerSecond) = some t := by
  have hs : t.second < 86400 := t.second_lt
  have hn : t.nano < 2 * 1000000000 := t.nano_lt
  have hleap : 1000000000 ≤ t.nano → t.second % 60 = 59 := t.leap_last
  have back : Time.ofSeconds? t.second t.nano = some t :=
    dif_pos ⟨t.second_lt, t.nano_lt, t.leap_last⟩
  have whole : t.second / 3600 * 3600 + t.second / 60 % 60 * 60 + t.second % 60 = t.second := by
    omega
  have fits : t.second / 3600 < 24 ∧ t.second / 60 % 60 < 60 ∧
      t.second % 60 + t.nano / nanosPerSecond ≤ 60 ∧ t.nano % nanosPerSecond < nanosPerSecond := by
    simp only [nanosPerSecond]
    omega
  rw [Time.ofFields?, if_pos fits]
  by_cases leap : 1000000000 ≤ t.nano
  · have last := hleap leap
    have second : t.second % 60 + t.nano / nanosPerSecond = 60 := by
      simp only [nanosPerSecond]
      omega
    have nano : nanosPerSecond + t.nano % nanosPerSecond = t.nano := by
      simp only [nanosPerSecond]
      omega
    have clock : t.second / 3600 * 3600 + t.second / 60 % 60 * 60 + 59 = t.second := by omega
    rw [if_pos second, nano, clock, back]
  · have second : t.second % 60 + t.nano / nanosPerSecond = t.second % 60 := by
      simp only [nanosPerSecond]
      omega
    have nano : t.nano % nanosPerSecond = t.nano := by
      simp only [nanosPerSecond]
      omega
    have early : t.second % 60 ≠ 60 := by omega
    rw [second, if_neg early, nano, whole, back]

namespace Calendar

/-! ### Layouts -/

section
variable {part : Part} {parts : List Part} {fields fields' : Fields} {text rest : List Char}

theorem readParts_cons (h : readPart part fields text = .ok (fields', rest)) :
    readParts (part :: parts) fields text = readParts parts fields' rest := by
  rw [readParts, h]
  rfl

theorem readPart_mark (c : Char) : readPart (.mark c) fields (c :: rest) = .ok (fields, rest) := by
  simp only [readPart, readMark, if_true, Except.map]

theorem readPart_year {year : Int} (lower : -2 ^ 31 ≤ year) (upper : year < 2 ^ 31)
    (h : Leaves Char.isDigit rest) :
    readPart (.field .year) fields (yearText year ++ rest) =
      .ok ({ fields with year := year }, rest) := by
  simp only [readPart, readField, Text.skipBlanks_of_leaves (leaves_isBlank_yearText _ _),
    readYear_yearText lower upper h]
  rfl

/-- A field of two digits takes the number they were written for. -/
theorem readPart_number (field : Field) {low high : Nat} (update : Fields → Nat → Fields)
    (read : ∀ text, readField field fields text = do
      let (n, rest) ← readWithin low high (Text.skipBlanks text)
      return (update fields n, rest))
    {n : Nat} (hlow : low ≤ n) (hhigh : n ≤ high) (hn : n < 100) :
    readPart (.field field) fields (padded 2 n ++ rest) = .ok (update fields n, rest) := by
  rw [readPart, read, Text.skipBlanks_of_leaves (leaves_isBlank_padded _ _ _),
    readWithin_padded hlow hhigh hn]
  rfl

end

theorem daysInMonth_le (year : Int) (month : Nat) : daysInMonth year month ≤ 31 := by
  unfold daysInMonth
  split
  · split <;> omega
  · split <;> omega

/-- The layout of a date reads a day whatever layout comes after it. -/
theorem readParts_date (d : Day) (lower : -2 ^ 31 ≤ d.year) (upper : d.year < 2 ^ 31)
    (parts : List Part) (fields : Fields) (rest : List Char) :
    readParts (dateLayout ++ parts) fields (d.text ++ rest) =
      readParts parts { fields with year := d.year, month := d.month, day := d.day } rest := by
  have hmonth := d.month_le
  have hday := Nat.le_trans d.day_le (daysInMonth_le d.year d.month)
  simp only [dateLayout, List.cons_append, List.nil_append, Day.text, List.append_assoc]
  rw [readParts_cons (readPart_year lower upper (Text.leaves_cons.mpr (by decide))),
    readParts_cons (readPart_mark '-'),
    readParts_cons (readPart_number .month (fun fields n => { fields with month := n })
      (fun _ => rfl) d.month_pos hmonth (by omega)),
    readParts_cons (readPart_mark '-'),
    readParts_cons (readPart_number .day (fun fields n => { fields with day := n })
      (fun _ => rfl) d.day_pos hday (by omega))]

theorem readParts_time (t : Time) (fields : Fields) (hnano : fields.nano = 0) :
    readParts timeLayout fields (clockText t.second t.nano) =
      .ok (⟨fields.year, fields.month, fields.day, t.second / 3600, t.second / 60 % 60,
        t.second % 60 + t.nano / nanosPerSecond, t.nano % nanosPerSecond⟩, []) := by
  have hs : t.second < 86400 := t.second_lt
  have hn : t.nano < 2 * 1000000000 := t.nano_lt
  have hleap : 1000000000 ≤ t.nano → t.second % 60 = 59 := t.leap_last
  have hsecond : t.second % 60 + t.nano / nanosPerSecond ≤ 60 := by
    simp only [nanosPerSecond]
    omega
  simp only [timeLayout, clockText, List.append_assoc, List.cons_append]
  rw [readParts_cons (readPart_number .hour (fun fields n => { fields with hour := n })
      (fun _ => rfl) (Nat.zero_le _)
      (show t.second / 3600 ≤ 23 by omega) (by omega)),
    readParts_cons (readPart_mark ':'),
    readParts_cons (readPart_number .minute (fun fields n => { fields with minute := n })
      (fun _ => rfl) (Nat.zero_le _)
      (show t.second / 60 % 60 ≤ 59 by omega) (by omega)),
    readParts_cons (readPart_mark ':'),
    readParts_cons (readPart_number .second (fun fields n => { fields with second := n })
      (fun _ => rfl) (Nat.zero_le _)
      hsecond (by omega))]
  have fraction := readNanos_fractionText (Nat.mod_lt t.nano (show 0 < nanosPerSecond by decide))
  obtain ⟨zero, text⟩ | ⟨digits, text, -, read⟩ := fraction
  · rw [text, zero, readParts_cons rfl, readParts, ← hnano]
  · have read := read [] Text.leaves_nil
    rw [List.append_nil] at read
    rw [text, readParts_cons (by rw [readPart, read]; rfl), readParts]

end Calendar

/-! ### Whole texts -/

theorem Date.ofFields?_self (d : Date) :
    Date.ofFields? d.day.year d.day.month d.day.day = some d := by
  have fields : Day.ofFields? d.day.year d.day.month d.day.day = some d.day :=
    dif_pos ⟨d.day.month_pos, d.day.month_le, d.day.day_pos, d.day.day_le⟩
  rw [Date.ofFields?, fields]
  exact dif_pos d.supported

theorem Calendar.readDate_text (d : Date) : readDate d.text = .ok d := by
  obtain ⟨lower, upper⟩ := d.supported
  have parts := readParts_date d.day (by omega) (by omega) [] .zero []
  simp only [List.append_nil, readParts] at parts
  simp only [readDate, readAll, Date.text, parts, bind, Except.bind, atEnd, List.isEmpty_nil,
    if_true, pure, Except.pure, Fields.date, Date.ofFields?_self, orFault]

theorem Calendar.readTime_text (t : Time) : readTime t.text = .ok t := by
  simp only [readTime, readAll, Time.text, readParts_time t .zero rfl, bind, Except.bind, atEnd,
    List.isEmpty_nil, if_true, pure, Except.pure, Fields.time, Time.ofFields?_clock, orFault]

theorem Calendar.readDateTime_text (t : DateTime) : readDateTime t.text = .ok t := by
  obtain ⟨lower, upper⟩ := t.date.supported
  have date := readParts_date t.date.day (by omega) (by omega) (.mark 'T' :: timeLayout) .zero
    ('T' :: clockText t.time.second t.time.nano)
  rw [readParts_cons (readPart_mark 'T'), readParts_time t.time _ rfl] at date
  simp only [readDateTime, readAll, DateTime.text, DateTime.toLocal, LocalTime.text,
    dateTimeLayout, date, bind, Except.bind, atEnd, List.isEmpty_nil, if_true, pure, Except.pure,
    Fields.dateTime, Fields.date, Fields.time, Date.ofFields?_self, Time.ofFields?_clock, orFault]

end CatalogQuery
