import CatalogQuery.Literal.Json
import CatalogQuery.Proofs.Decimal.Order
import CatalogQuery.Proofs.Literal.RoundTrip

/-!
# Ranges are never empty

Bounds make a range exactly if there is one and the lower does not exceed the upper. So a
range contains each of its bounds, whether it was made of values, read from a text or
decoded from a stored form.
-/

namespace CatalogQuery

instance ZonedDateTime.instIsPreorder : Std.IsPreorder ZonedDateTime where
  le_refl z := Int.le_refl z.utc.rank
  le_trans _ _ _ := Int.le_trans

namespace Range

variable {α : Type} [LE α]

/-- Bounds that make a range: one of them is there, and the lower one does not exceed the
upper one. -/
structure Orderly (lower upper : Option α) : Prop where
  bounded : lower.isSome || upper.isSome
  ordered : ∀ l ∈ lower, ∀ u ∈ upper, l ≤ u

theorem orderly (r : Range α) : Orderly r.lower r.upper := ⟨r.bounded, r.ordered⟩

/-- What is wrong with bounds that make no range. -/
def fault : Option α → Option α → RangeFault α
  | some lower, some upper => .inverted lower upper
  | _, _ => .unbounded

variable [DecidableLE α]

/-- What a range between two bounds is, of which one may be missing. -/
structure Spans (r : Range α) (lower upper : Option α) : Prop extends Orderly lower upper where
  lower_eq : r.lower = lower
  upper_eq : r.upper = upper
  contains_bounds : ∀ bound, bound ∈ lower ∨ bound ∈ upper → r.contains bound = true
  /-- There are no gaps. -/
  convex : ∀ a b c, r.contains a = true → r.contains c = true → a ≤ b → b ≤ c →
    r.contains b = true

theorem contains_iff (r : Range α) (value : α) :
    r.contains value = true ↔ (∀ l ∈ r.lower, l ≤ value) ∧ ∀ u ∈ r.upper, value ≤ u := by
  simp [contains, Option.all_eq_true]

/-- Bounds that make no range are refused, and the refusal says what is wrong with them. -/
theorem make_refused {lower upper : Option α} (h : ¬Orderly lower upper) :
    make lower upper = .error (fault lower upper) := by
  match lower, upper with
  | none, none => rfl
  | some l, none => exact absurd (atLeast l).orderly h
  | none, some u => exact absurd (atMost u).orderly h
  | some l, some u =>
    have inverted : ¬l ≤ u := fun le => h ⟨rfl, by simpa using le⟩
    exact dif_neg inverted

theorem make_eq_ok {lower upper : Option α} {r : Range α} :
    make lower upper = .ok r ↔ r.lower = lower ∧ r.upper = upper := by
  constructor
  · exact Literal.parts_of_make
  · rintro ⟨rfl, rfl⟩
    exact r.make_self

section Preorder
variable [Std.IsPreorder α]

/-- **A range is between its own bounds and contains them.** -/
theorem spans (r : Range α) : r.Spans r.lower r.upper where
  toOrderly := r.orderly
  lower_eq := rfl
  upper_eq := rfl
  contains_bounds := by
    rintro bound (lower | upper)
    · refine r.contains_iff bound |>.mpr ⟨fun l hl => ?_, r.ordered bound lower⟩
      cases Option.mem_unique hl lower
      exact Std.le_refl bound
    · refine r.contains_iff bound |>.mpr ⟨fun l hl => r.ordered l hl bound upper, fun u hu => ?_⟩
      cases Option.mem_unique hu upper
      exact Std.le_refl bound
  convex := by
    intro a b c first last hab hbc
    refine r.contains_iff b |>.mpr ⟨fun l hl => ?_, fun u hu => ?_⟩
    · exact Std.le_trans ((r.contains_iff a |>.mp first).1 l hl) hab
    · exact Std.le_trans hbc ((r.contains_iff c |>.mp last).2 u hu)

/-- **Bounds make a range exactly if it is one between them.** -/
theorem make_iff_spans {lower upper : Option α} {r : Range α} :
    make lower upper = .ok r ↔ r.Spans lower upper := by
  constructor
  · intro h
    obtain ⟨rfl, rfl⟩ := make_eq_ok.mp h
    exact r.spans
  · exact fun h => make_eq_ok.mpr ⟨h.lower_eq, h.upper_eq⟩

end Preorder

/-! ### Whole numbers among decimals -/

theorem contains_toDecimal (r : Range Int64) (n : Int64) :
    r.toDecimal.contains (Decimal.ofInt64 n) = r.contains n := by
  simp [contains, toDecimal, Option.all_map, Decimal.ofInt64_le_ofInt64]

end Range

/-! ### Sorts of range literals -/

/-- A sort of range literals: what ranges it has and how their bounds are read and written. -/
structure RangeSort (α : Type) [LE α] where
  kind : LiteralKind
  wrap : Range α → Literal
  /-- Reads a bound of a text. -/
  read : List Char → Except LiteralFault α
  /-- Decodes a stored bound. -/
  decode : Json → Option α
  /-- Writes a bound into a message. -/
  write : α → List Char

namespace RangeSort

open Json (wanted accepted)
open Literal (mapFault_eq_ok readBounds scalarOfJson)

def ints : RangeSort Int64 where
  kind := .intRange
  wrap := .intRange
  read text := mapFault .integer (Text.readInt64 text)
  decode := Json.asInt64?
  write n := Text.integerText n.toInt

def decimals : RangeSort Decimal where
  kind := .decimalRange
  wrap := .decimalRange
  read text := mapFault .decimal (Decimal.read text)
  decode := Json.asDecimal?
  write := Decimal.text

def dateTimes : RangeSort ZonedDateTime where
  kind := .dateTimeRange
  wrap := .dateTimeRange
  read text := mapFault .calendar (Calendar.readZoned text)
  decode := Json.asZoned?
  write := ZonedDateTime.exactText

variable {α : Type} [LE α] [DecidableLE α]

def make (s : RangeSort α) (lower upper : Option α) : Except LiteralError Literal :=
  (mapFault (.ofRange s.write) (Range.make lower upper)).map s.wrap

def Spans (s : RangeSort α) (l : Literal) (lower upper : Option α) : Prop :=
  ∃ r, l = s.wrap r ∧ r.Spans lower upper

/-- The error of bounds that make no range. -/
def refusal (s : RangeSort α) (lower upper : Option α) : LiteralError :=
  .ofRange s.write (Range.fault lower upper)

/-- Literals of a kind are made of the bounds that the readers of a sort find. -/
structure Lawful (s : RangeSort α) : Prop where
  ranged : s.kind ∈ [.intRange, .decimalRange, .dateTimeRange]
  kind_wrap : ∀ r, (s.wrap r).kind = s.kind
  parse_eq : ∀ text, Literal.parse s.kind text = do
    let (lower, upper) ← Literal.parse.named s.kind text (readBounds s.read text)
    s.make lower upper
  scalarOfJson_eq : ∀ value, scalarOfJson s.kind value = do
    let (lower, upper) ← wanted (value.bounds? s.decode)
    accepted (s.make lower upper)

theorem lawful_ints : ints.Lawful := ⟨by decide, fun _ => rfl, fun _ => rfl, fun _ => rfl⟩

theorem lawful_decimals : decimals.Lawful := ⟨by decide, fun _ => rfl, fun _ => rfl, fun _ => rfl⟩

theorem lawful_dateTimes : dateTimes.Lawful := ⟨by decide, fun _ => rfl, fun _ => rfl, fun _ => rfl⟩

variable {s : RangeSort α} {text : List Char} {value : Json} {l : Literal}
  {lower upper : Option α}

theorem Lawful.kind_of_spans (lawful : s.Lawful) (h : s.Spans l lower upper) :
    l.kind = s.kind := by
  obtain ⟨r, rfl, -⟩ := h
  exact lawful.kind_wrap r

theorem make_refused (h : ¬Range.Orderly lower upper) :
    s.make lower upper = .error (s.refusal lower upper) := by
  rw [make, Range.make_refused h]
  rfl

theorem parse_refused (lawful : s.Lawful) (found : readBounds s.read text = .ok (lower, upper))
    (h : ¬Range.Orderly lower upper) :
    Literal.parse s.kind text = .error (s.refusal lower upper) := by
  rw [lawful.parse_eq, found]
  exact make_refused h

theorem scalarOfJson_refused (lawful : s.Lawful)
    (found : value.bounds? s.decode = some (lower, upper)) (h : ¬Range.Orderly lower upper) :
    scalarOfJson s.kind value = .error (.refused (s.refusal lower upper)) := by
  rw [lawful.scalarOfJson_eq, found]
  exact congrArg accepted (make_refused h)

section Preorder
variable [Std.IsPreorder α]

theorem make_eq_ok : s.make lower upper = .ok l ↔ s.Spans l lower upper := by
  constructor
  · intro h
    obtain ⟨r, made, rfl⟩ := Outcome.map_eq_ok.mp h
    exact ⟨r, rfl, Range.make_iff_spans.mp (mapFault_eq_ok.mp made)⟩
  · rintro ⟨r, rfl, spans⟩
    rw [make, Range.make_iff_spans.mpr spans]
    rfl

/-- **A literal that is read from a text is the range between the bounds in the text.** -/
theorem parse_eq_ok (lawful : s.Lawful) : Literal.parse s.kind text = .ok l ↔
    ∃ lower upper, readBounds s.read text = .ok (lower, upper) ∧ s.Spans l lower upper := by
  rw [lawful.parse_eq, Outcome.bind_eq_ok, Prod.exists]
  simp only [Literal.parse.named, mapFault_eq_ok, make_eq_ok]

/-- **A literal that is decoded is the range between the stored bounds.** -/
theorem scalarOfJson_eq_ok (lawful : s.Lawful) : scalarOfJson s.kind value = .ok l ↔
    ∃ lower upper, value.bounds? s.decode = some (lower, upper) ∧ s.Spans l lower upper := by
  rw [lawful.scalarOfJson_eq, Outcome.bind_eq_ok, Prod.exists]
  simp only [wanted_eq_ok, accepted_eq_ok, make_eq_ok]

theorem Lawful.kind_of_parse (lawful : s.Lawful) (h : Literal.parse s.kind text = .ok l) :
    l.kind = s.kind := by
  obtain ⟨_, _, -, spans⟩ := (parse_eq_ok lawful).mp h
  exact lawful.kind_of_spans spans

theorem Lawful.kind_of_scalarOfJson (lawful : s.Lawful) (h : scalarOfJson s.kind value = .ok l) :
    l.kind = s.kind := by
  obtain ⟨_, _, -, spans⟩ := (scalarOfJson_eq_ok lawful).mp h
  exact lawful.kind_of_spans spans

end Preorder
end RangeSort

end CatalogQuery
