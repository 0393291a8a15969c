import CatalogQuery.Proofs.Query.Origins

namespace CatalogQuery

open Grammar (Cut TokenOf rangeKind)
open Literal (readBounds scalarOfJson)

namespace RangeSort

variable {α : Type} [LE α] [DecidableLE α] {s : RangeSort α} {l : Literal}
  {lower upper : Option α}

theorem Lawful.single (lawful : s.Lawful) : s.kind ≠ .multiple := by
  intro several
  have ranged := lawful.ranged
  rw [several] at ranged
  exact absurd ranged (by decide)

/-! ### In texts -/

/-- A text with a token that is a range, but whose bounds make none, is refused. -/
theorem parse_refused_of_token (lawful : s.Lawful) {text token : List Char}
    {tokens : List (List Char)} (cut : Cut tokens text) (among : token ∈ tokens)
    (bracket : token.head? = some '[') (sort : rangeKind token = s.kind)
    (found : readBounds s.read token = .ok (lower, upper)) (h : ¬Range.Orderly lower upper) :
    ∃ error, CatalogQuery.parse text = .error error := by
  cases parsed : CatalogQuery.parse text with
  | error error => exact ⟨error, rfl⟩
  | ok v =>
    obtain ⟨tokens', cut', -, roles⟩ := Parsed.tokens_of_parse parsed
    cases cut.unique cut'
    rcases roles token among with ⟨c, mark, rfl⟩ | word | ⟨l, made⟩
    · cases Option.some.inj bracket
      exact absurd mark (by decide)
    · obtain ⟨c, rest, rfl, start⟩ := word.start
      cases Option.some.inj bracket
      exact absurd start (by decide)
    · have read := made.parse
      rw [made.of_bracket bracket, sort, parse_refused lawful found h] at read
      cases read

section Preorder
variable [Std.IsPreorder α]

/-- Each range of what is parsed is one between the bounds of its token. -/
theorem spans_of_parse (lawful : s.Lawful) {text : List Char} {v : Parsed}
    (h : CatalogQuery.parse text = .ok v) (among : l ∈ v.scalars) (sort : l.kind = s.kind) :
    ∃ tokens, Cut tokens text ∧ ∃ token ∈ tokens, ∃ lower upper,
      readBounds s.read token = .ok (lower, upper) ∧ s.Spans l lower upper := by
  obtain ⟨tokens, cut, each, -⟩ := Parsed.tokens_of_parse h
  obtain ⟨token, htoken, made⟩ := each l among
  have read := made.parse
  rw [sort] at read
  exact ⟨tokens, cut, token, htoken, (parse_eq_ok lawful).mp read⟩

/-! ### In stored forms -/

/-- Each range of what is decoded is one between the bounds that are stored. -/
theorem spans_of_decodes (lawful : s.Lawful) {form : StoredForm} {json : Json} {v : Parsed}
    (h : Decodes form json v) (among : l ∈ v.scalars) (sort : l.kind = s.kind) :
    ∃ part value, Holds part form json ∧ part.field? 1 "value" = some value ∧
      ∃ lower upper, value.bounds? s.decode = some (lower, upper) ∧ s.Spans l lower upper := by
  obtain ⟨part, held, read⟩ := h.held_of_scalar l among
  obtain ⟨value, field, read⟩ := Literal.scalarOfJson_of_ofJson read (sort ▸ lawful.single)
  rw [sort] at read
  exact ⟨part, value, held, field, (scalarOfJson_eq_ok lawful).mp read⟩

end Preorder

/-- Nothing is decoded of a stored form that holds a range whose bounds make none. -/
theorem not_decodes_of_held (lawful : s.Lawful) {form : StoredForm} {json part value : Json}
    (held : Holds part form json) (sort : Literal.kindOfJson? part = some s.kind)
    (field : part.field? 1 "value" = some value)
    (found : value.bounds? s.decode = some (lower, upper)) (h : ¬Range.Orderly lower upper)
    (v : Parsed) : ¬Decodes form json v := by
  intro decodes
  obtain ⟨l, read⟩ := decodes.literal_of_held held
  obtain ⟨kind, value', named, field', read⟩ := Literal.ofJson_eq_ok read
  cases sort.symm.trans named
  cases field.symm.trans field'
  rcases Literal.valueOfJson_eq_ok read with ⟨-, read⟩ | ⟨several, -⟩
  · rw [scalarOfJson_refused lawful found h] at read
    cases read
  · exact lawful.single several

/-! ### All ways to obtain a range -/

/-- Ranges of a sort are never empty: in whatever way they are obtained, they are ranges
between the bounds that are given, and bounds that make no range are refused. -/
structure NeverEmpty (s : RangeSort α) : Prop where
  atLeast : ∀ lower, (Range.atLeast lower : Range α).Spans (some lower) none
  atMost : ∀ upper, (Range.atMost upper : Range α).Spans none (some upper)
  between : ∀ lower upper (r : Range α), Range.between lower upper = .ok r ↔
    r.Spans (some lower) (some upper)
  between_refused : ∀ lower upper : α, ¬lower ≤ upper →
    Range.between lower upper = .error (.inverted lower upper)
  /-- From a token. -/
  parsed : ∀ text l, Literal.parse s.kind text = .ok l ↔ ∃ lower upper,
    readBounds s.read text = .ok (lower, upper) ∧ s.Spans l lower upper
  parse_refused : ∀ text lower upper, readBounds s.read text = .ok (lower, upper) →
    ¬Range.Orderly lower upper → Literal.parse s.kind text = .error (s.refusal lower upper)
  /-- From a text of any production, wherever the range stands in it. -/
  inText : ∀ text v, CatalogQuery.parse text = .ok v → ∀ l ∈ v.scalars, l.kind = s.kind →
    ∃ tokens, Cut tokens text ∧ ∃ token ∈ tokens, ∃ lower upper,
      readBounds s.read token = .ok (lower, upper) ∧ s.Spans l lower upper
  text_refused : ∀ text tokens, Cut tokens text → ∀ token ∈ tokens, token.head? = some '[' →
    rangeKind token = s.kind → ∀ lower upper, readBounds s.read token = .ok (lower, upper) →
      ¬Range.Orderly lower upper → ∃ error, CatalogQuery.parse text = .error error
  /-- From stored bounds. -/
  decoded : ∀ value l, scalarOfJson s.kind value = .ok l ↔ ∃ lower upper,
    value.bounds? s.decode = some (lower, upper) ∧ s.Spans l lower upper
  decode_refused : ∀ value lower upper, value.bounds? s.decode = some (lower, upper) →
    ¬Range.Orderly lower upper →
      scalarOfJson s.kind value = .error (.refused (s.refusal lower upper))
  /-- From a stored form of any sort, wherever the range stands in it. -/
  inStored : ∀ form json v, Decodes form json v → ∀ l ∈ v.scalars, l.kind = s.kind →
    ∃ part value, Holds part form json ∧ part.field? 1 "value" = some value ∧
      ∃ lower upper, value.bounds? s.decode = some (lower, upper) ∧ s.Spans l lower upper
  stored_refused : ∀ form json part, Holds part form json →
    Literal.kindOfJson? part = some s.kind → ∀ value, part.field? 1 "value" = some value →
      ∀ lower upper, value.bounds? s.decode = some (lower, upper) →
        ¬Range.Orderly lower upper → ∀ v, ¬Decodes form json v

theorem neverEmpty [Std.IsPreorder α] (lawful : s.Lawful) : s.NeverEmpty where
  atLeast lower := (Range.atLeast lower).spans
  atMost upper := (Range.atMost upper).spans
  between lower upper _ :=
    show Range.make (some lower) (some upper) = .ok _ ↔ _ from Range.make_iff_spans
  between_refused _ _ inverted := dif_neg inverted
  parsed _ _ := parse_eq_ok lawful
  parse_refused _ _ _ := parse_refused lawful
  inText _ _ h _ := spans_of_parse lawful h
  text_refused _ _ cut _ among bracket sort _ _ :=
    parse_refused_of_token lawful cut among bracket sort
  decoded _ _ := scalarOfJson_eq_ok lawful
  decode_refused _ _ _ := scalarOfJson_refused lawful
  inStored _ _ _ h _ := spans_of_decodes lawful h
  stored_refused _ _ _ held sort _ field _ _ := not_decodes_of_held lawful held sort field

end RangeSort

/-- **Ranges are never empty, and widening is faithful.** In whatever way a range is
obtained, it has a bound, its lower one does not exceed its upper one, it contains each of
its bounds and all values between two that it contains. Bounds that make no such range are
refused wherever they stand. A whole number is in a range of whole numbers exactly if its
decimal is in the range of their decimals. -/
theorem ranges_never_empty :
    RangeSort.ints.NeverEmpty ∧ RangeSort.decimals.NeverEmpty ∧ RangeSort.dateTimes.NeverEmpty ∧
      ∀ r : Range Int64,
        r.toDecimal.Spans (r.lower.map Decimal.ofInt64) (r.upper.map Decimal.ofInt64) ∧
          ∀ n, r.contains n = true ↔ r.toDecimal.contains (Decimal.ofInt64 n) = true := by
  refine ⟨RangeSort.neverEmpty RangeSort.lawful_ints,
    RangeSort.neverEmpty RangeSort.lawful_decimals,
    RangeSort.neverEmpty RangeSort.lawful_dateTimes, fun r => ⟨r.toDecimal.spans, fun n => ?_⟩⟩
  rw [r.contains_toDecimal]

/-- Two bounds in brackets. -/
def boundsText (lower upper : Char) : List Char := ['[', lower, ',', upper, ']']

theorem invertedText_refused :
    (∃ v, parse (boundsText '1' '5') = .ok v ∧ ∃ l ∈ v.scalars, ∃ lower upper,
      RangeSort.ints.Spans l lower upper) ∧
      ∃ error, parse (boundsText '5' '1') = .error error := by
  obtain ⟨ints, -, -, -⟩ := ranges_never_empty
  constructor
  · have read : (parse (boundsText '1' '5')).toOption.map (·.scalars.map Literal.kind) =
        some [.intRange] := by decide +kernel
    obtain ⟨v, parsed, kinds⟩ := Outcome.toOption_map_eq_some.mp read
    obtain ⟨l, scalars, kind⟩ := List.map_eq_singleton_iff.mp kinds
    have among : l ∈ v.scalars := by simp [scalars]
    obtain ⟨-, -, -, -, lower, upper, -, spans⟩ := ints.inText _ v parsed l among kind
    exact ⟨v, parsed, l, among, lower, upper, spans⟩
  · have inside : ∀ c ∈ ['5', ',', '1'], c ≠ '[' ∧ c ≠ ']' := by simp
    have cut : Cut [boundsText '5' '1'] (boundsText '5' '1') :=
      .token Grammar.blank_nil (.range [] inside) (.ending Grammar.blank_nil)
    have found : readBounds RangeSort.ints.read (boundsText '5' '1') = .ok (some 5, some 1) :=
      rfl
    have inverted : ¬Range.Orderly (some (5 : Int64)) (some 1) := by
      intro orderly
      exact absurd (orderly.ordered 5 rfl 1 rfl) (by decide)
    exact ints.text_refused _ _ cut _ List.mem_cons_self rfl rfl _ _ found inverted

end CatalogQuery
