import CatalogQuery.Literal.Reader
import CatalogQuery.Proofs.Grammar.Scalar
import CatalogQuery.Proofs.Literal.Normal
import CatalogQuery.Proofs.Text.Quoted

namespace CatalogQuery

open Grammar (Scalar)

theorem toOption_mapFault {ε ε' α : Type} (f : ε → ε') (x : Except ε α) :
    (mapFault f x).toOption = x.toOption := by
  cases x <;> rfl

/-- The bounds of a range make the range. -/
theorem Range.make_self {α : Type} [LE α] [DecidableLE α] (r : Range α) :
    make r.lower r.upper = .ok r := by
  obtain ⟨lower, upper, bounded, ordered⟩ := r
  cases lower with
  | none =>
    cases upper with
    | none => cases bounded
    | some u => rfl
  | some l =>
    cases upper with
    | none => rfl
    | some u =>
      have le : l ≤ u := ordered l rfl u rfl
      rw [make, between, dif_pos le]

namespace Literal

/-! ### Ranges -/

theorem splitAt?_append {c : Char} {before : List Char} (h : c ∉ before) (after : List Char) :
    splitAt? c (before ++ c :: after) = some (before, after) := by
  have taken : (before ++ c :: after).takeWhile (· != c) = before := by
    apply Text.takeWhile_append _ (Text.leaves_cons.mpr (by simp))
    intro d hd
    exact bne_iff_ne.mpr fun same => h (same ▸ hd)
  simp only [splitAt?, taken, List.drop_left]

theorem trim_scalar {text : List Char} (h : Scalar text) : Text.trim text = text := by
  have blank : ∀ c ∈ text, Text.isBlank c = false := by
    intro c hc
    exact Grammar.isBlank_of_isScalarChar (h.chars c hc)
  apply Text.trim_eq_self
  · intro c hc
    exact blank c (List.mem_of_mem_head? hc)
  · intro c hc
    exact blank c (List.mem_reverse.mp (List.mem_of_mem_head? hc))

theorem bound?_elim {α : Type} {write : α → List Char} (b : Option α)
    (h : ∀ a ∈ b.toList, Scalar (write a)) : bound? (b.elim [] write) = b.map write := by
  cases b with
  | none => rfl
  | some a =>
    have scalar := h a List.mem_cons_self
    obtain ⟨c, rest, text, -⟩ := scalar.start
    have present : (write a).isEmpty = false := by rw [text, List.isEmpty_cons]
    simp only [Option.elim_some, bound?, trim_scalar scalar, present, Bool.false_eq_true, if_false,
      Option.map_some]

theorem splitRange?_text {α : Type} [LE α] {write : α → List Char} {r : Range α}
    (h : ∀ a ∈ r.bounds, Scalar (write a)) :
    splitRange? (r.text write) = some (r.lower.map write, r.upper.map write) := by
  have lower := bound?_elim r.lower fun a ha => h a (List.mem_append_left _ ha)
  have upper := bound?_elim r.upper fun a ha => h a (List.mem_append_right _ ha)
  have comma : ',' ∉ r.lower.elim [] write := by
    cases hl : r.lower with
    | none => simp
    | some a =>
      intro hc
      have scalar := h a (List.mem_append_left _ (by simp [hl]))
      exact (Grammar.bounds_of_isScalarChar (scalar.chars _ hc)).2.2 rfl
  have trimmed : Text.trim (r.text write) = r.text write := by
    refine Text.trim_eq_self (Text.leaves_cons.mpr (by decide)) ?_
    rw [Range.text, List.reverse_append]
    exact Text.leaves_cons.mpr (by decide)
  have closed : Text.dropClosing? ']' (r.lower.elim [] write ++ ',' :: r.upper.elim [] write ++
      [']']) = some (r.lower.elim [] write ++ ',' :: r.upper.elim [] write) :=
    Text.dropClosing?_append _ _
  rw [splitRange?, trimmed, Range.text]
  simp only [List.cons_append, closed, Option.bind_some, splitAt?_append comma, Option.map_some,
    lower, upper]

section
variable {α : Type} {read : List Char → Except LiteralFault α} {write : α → List Char}
  {readable : α → Bool} {f : α → α}

/-- A bound that is there is read, and one that is missing stays missing. -/
theorem readBound_map {b : Option α}
    (h : ∀ a ∈ b.toList, (read (write a)).toOption = if readable a then some (f a) else none) :
    (readBound read (b.map write)).toOption =
      if b.toList.all readable then some (b.map f) else none := by
  cases b with
  | none => rfl
  | some a =>
    have value := h a List.mem_cons_self
    simp only [readBound, Option.map_some, Outcome.toOption_map, value, Option.toList_some,
      List.all_cons, List.all_nil, Bool.and_true]
    split <;> rfl

theorem readBounds_text [LE α] {r : Range α} (scalar : ∀ a ∈ r.bounds, Scalar (write a))
    (h : ∀ a ∈ r.bounds, (read (write a)).toOption = if readable a then some (f a) else none) :
    (readBounds read (r.text write)).toOption =
      if r.bounds.all readable then some (r.lower.map f, r.upper.map f) else none := by
  have lower := readBound_map fun a ha => h a (List.mem_append_left _ ha)
  have upper := readBound_map fun a ha => h a (List.mem_append_right _ ha)
  simp only [readBounds, splitRange?_text scalar, Outcome.toOption_bind, lower, upper,
    Range.bounds, List.all_append]
  cases r.lower.toList.all readable
  · rfl
  · cases r.upper.toList.all readable <;> rfl

end

theorem readBounds_int (r : Range Int64) :
    (readBounds (fun text => mapFault .integer (Text.readInt64 text))
      (r.text fun n => Text.integerText n.toInt)).toOption = some (r.lower, r.upper) := by
  have each (n : Int64) :
      (mapFault LiteralFault.integer (Text.readInt64 (Text.integerText n.toInt))).toOption =
        if true then some (id n) else none := by
    rw [Text.readInt64_integerText]
    rfl
  rw [readBounds_text (fun n _ => Scalar.integerText n.toInt) fun n _ => each n]
  simp

theorem readBounds_decimal (r : Range Decimal) :
    (readBounds (fun text => mapFault .decimal (Decimal.read text))
      (r.text Decimal.queryText)).toOption =
      some (r.lower.map Decimal.normal, r.upper.map Decimal.normal) := by
  have each (d : Decimal) : (mapFault LiteralFault.decimal
      (Decimal.read d.queryText)).toOption = if true then some d.normal else none := by
    rw [Decimal.read_queryText]
    rfl
  rw [readBounds_text (fun d _ => Scalar.queryText_decimal d) fun d _ => each d]
  simp

theorem readBounds_zoned (r : Range ZonedDateTime) :
    (readBounds (fun text => mapFault .calendar (Calendar.readZoned text))
      (r.text ZonedDateTime.queryText)).toOption =
      if r.bounds.all ZonedDateTime.readable then
        some (r.lower.map ZonedDateTime.normal, r.upper.map ZonedDateTime.normal)
      else none := by
  apply readBounds_text
  · intro z _
    exact Scalar.queryText_zoned z
  · intro z _
    rw [toOption_mapFault, Calendar.readZoned_queryText]

theorem intRange?_self (r : Range Int64) : intRange? r.lower r.upper = .ok (.intRange r) := by
  rw [intRange?, r.make_self]
  rfl

theorem decimalRange?_self (r : Range Decimal) :
    decimalRange? r.lower r.upper = .ok (.decimalRange r) := by
  rw [decimalRange?, r.make_self]
  rfl

theorem dateTimeRange?_self (r : Range ZonedDateTime) :
    dateTimeRange? r.lower r.upper = .ok (.dateTimeRange r) := by
  rw [dateTimeRange?, r.make_self]
  rfl

/-! ### Single literals -/

theorem readBoolean_booleanText (value : Bool) : readBoolean (booleanText value) = .ok value := by
  cases value <;> decide

/-- **A single literal reads back as far as its years go.** The reader of its kind
takes its text for its normal form, or refuses it if a year cannot be read. -/
theorem parse_text {l : Literal} (h : l.kind ≠ .multiple) :
    (parse l.kind l.text).toOption = if l.readable then some l.normal else none := by
  cases l with
  | string value =>
    simp only [kind, text, parse, Text.unquote?_quote, String.ofList_toList]
    rfl
  | int value =>
    simp only [kind, text, parse, parse.named, Text.readInt64_integerText]
    rfl
  | decimal value =>
    simp only [kind, text, parse, parse.named, Decimal.read_queryText]
    rfl
  | boolean value =>
    simp only [kind, text, parse, parse.named, readBoolean_booleanText]
    rfl
  | date value =>
    simp only [kind, text, parse, parse.named, Calendar.readDate_text]
    rfl
  | time value =>
    simp only [kind, text, parse, parse.named, Calendar.readTime_text]
    rfl
  | dateTime value =>
    simp only [kind, text, parse, parse.named, Calendar.readDateTime_text]
    rfl
  | zonedDateTime value =>
    have read := Calendar.readZoned_queryText value
    simp only [kind, text, parse, parse.named, toOption_mapFault, Outcome.toOption_map, read]
    by_cases hr : (Literal.zonedDateTime value).readable = true
    · rw [if_pos hr, if_pos (show value.readable = true from hr)]
      rfl
    · rw [if_neg hr, if_neg (show ¬ value.readable = true from hr)]
      rfl
  | intRange range =>
    simp only [kind, text, parse, parse.named, Outcome.toOption_bind, toOption_mapFault,
      readBounds_int, Option.bind_some, intRange?_self]
    rfl
  | decimalRange range =>
    have make := decimalRange?_self (range.map Decimal.normal fun a b =>
      (Decimal.normal_le_normal a b).mpr)
    simp only [kind, text, parse, parse.named, Outcome.toOption_bind, toOption_mapFault,
      readBounds_decimal, Option.bind_some]
    exact congrArg Except.toOption make
  | dateTimeRange range =>
    have make := dateTimeRange?_self (range.map ZonedDateTime.normal fun _ _ => id)
    simp only [kind, text, parse, parse.named, Outcome.toOption_bind, toOption_mapFault,
      readBounds_zoned]
    by_cases hr : (Literal.dateTimeRange range).readable = true
    · rw [if_pos hr, if_pos (show range.bounds.all ZonedDateTime.readable = true from hr)]
      exact congrArg Except.toOption make
    · rw [if_neg hr, if_neg (show ¬ range.bounds.all ZonedDateTime.readable = true from hr)]
      rfl
  | enum token =>
    have found : EnumToken.ofWord? token.word = some token := dif_pos token.wellFormed
    simp only [kind, text, parse, String.ofList_toList, enum?, found]
    rfl
  | locale tag =>
    have found : Locale.ofTag? tag.tag = some tag := dif_pos tag.wellFormed
    simp only [kind, text, parse, List.cons_append, betweenTicks?, Text.dropClosing?_append,
      String.ofList_toList, locale?, found]
    rfl
  | multiple => exact absurd rfl h

/-! ### What was read is readable -/

theorem mapFault_eq_ok {ε ε' α : Type} {f : ε → ε'} {x : Except ε α} {a : α} :
    mapFault f x = .ok a ↔ x = .ok a := by
  cases x <;> simp [mapFault]

theorem readBound_eq_ok {α ε : Type} {read : List Char → Except ε α}
    {part : Option (List Char)} {b : Option α} (h : readBound read part = .ok b) :
    ∀ a ∈ b.toList, ∃ text, read text = .ok a := by
  cases part with
  | none =>
    cases h
    simp
  | some text =>
    obtain ⟨a, ha, rfl⟩ := Outcome.map_eq_ok.mp h
    simpa using ⟨text, ha⟩

/-- Both bounds of a range come from its reader. -/
theorem readBounds_eq_ok {α : Type} {read : List Char → Except LiteralFault α} {text : List Char}
    {lower upper : Option α} (h : readBounds read text = .ok (lower, upper)) :
    ∀ a ∈ lower.toList ++ upper.toList, ∃ part, read part = .ok a := by
  unfold readBounds at h
  split at h
  · cases h
  · obtain ⟨l, hl, h⟩ := Outcome.bind_eq_ok.mp h
    obtain ⟨u, hu, h⟩ := Outcome.bind_eq_ok.mp h
    cases h
    intro a ha
    rcases List.mem_append.mp ha with ha | ha
    · exact readBound_eq_ok hl a ha
    · exact readBound_eq_ok hu a ha

/-- A range has the bounds that it was made of. -/
theorem parts_of_make {α : Type} [LE α] [DecidableLE α] {lower upper : Option α} {r : Range α}
    (h : Range.make lower upper = .ok r) : r.lower = lower ∧ r.upper = upper := by
  cases lower <;> cases upper <;> simp only [Range.make] at h
  · cases h
  · cases h
    exact ⟨rfl, rfl⟩
  · cases h
    exact ⟨rfl, rfl⟩
  · unfold Range.between at h
    split at h
    · cases h
      exact ⟨rfl, rfl⟩
    · cases h

theorem bounds_of_make {α : Type} [LE α] [DecidableLE α] {lower upper : Option α} {r : Range α}
    (h : Range.make lower upper = .ok r) : r.bounds = lower.toList ++ upper.toList := by
  obtain ⟨hlower, hupper⟩ := parts_of_make h
  rw [Range.bounds, hlower, hupper]

/-- Everything that was read by the reader of a kind is readable. -/
theorem readable_of_parse {kind : LiteralKind} {text : List Char} {l : Literal}
    (h : parse kind text = .ok l) : l.readable = true := by
  cases kind with
  | string =>
    simp only [parse] at h
    split at h
    · cases h
      rfl
    · cases h
  | zonedDateTime =>
    obtain ⟨z, hz, rfl⟩ := Outcome.map_eq_ok.mp (mapFault_eq_ok.mp h)
    exact Calendar.readable_of_readZoned (mapFault_eq_ok.mp hz)
  | dateTimeRange =>
    obtain ⟨⟨lower, upper⟩, hbounds, h⟩ := Outcome.bind_eq_ok.mp h
    obtain ⟨r, hr, rfl⟩ := Outcome.map_eq_ok.mp h
    have made := bounds_of_make (mapFault_eq_ok.mp hr)
    apply List.all_eq_true.mpr
    intro z hz
    obtain ⟨part, hpart⟩ := readBounds_eq_ok (mapFault_eq_ok.mp hbounds) z (made ▸ hz)
    exact Calendar.readable_of_readZoned (mapFault_eq_ok.mp hpart)
  | intRange =>
    obtain ⟨⟨lower, upper⟩, -, h⟩ := Outcome.bind_eq_ok.mp h
    obtain ⟨r, -, rfl⟩ := Outcome.map_eq_ok.mp h
    rfl
  | decimalRange =>
    obtain ⟨⟨lower, upper⟩, -, h⟩ := Outcome.bind_eq_ok.mp h
    obtain ⟨r, -, rfl⟩ := Outcome.map_eq_ok.mp h
    rfl
  | enum =>
    simp only [parse, enum?] at h
    split at h
    · cases h
      rfl
    · cases h
  | locale =>
    simp only [parse, locale?] at h
    split at h
    · split at h
      · cases h
        rfl
      · cases h
    · cases h
  | multiple => cases h
  | _ =>
    obtain ⟨value, -, rfl⟩ := Outcome.map_eq_ok.mp (mapFault_eq_ok.mp h)
    rfl

end Literal
end CatalogQuery
