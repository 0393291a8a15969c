import CatalogQuery.Literal.Value
import CatalogQuery.Proofs.Decimal.Readings
import CatalogQuery.Proofs.Literal.Stored
import CatalogQuery.Proofs.Parse.RoundTrip

/-!
# Literals of plain values

A plain value stands for a literal if neither it nor anything inside it is refused as such:
`null`, an object, an array of fewer than two items, a number that is neither of 64 bits nor
read as a decimal. The literal has the form of the value, and is what its text and its stored
form say. What is refused is named by the first value inside that is.
-/

namespace CatalogQuery

/-! ### Numbers -/

namespace Json

namespace Number

/-- A number of 64 bits, or one whose text is a decimal, plainly or with a power of ten. -/
def Allowed (n : Number) : Prop :=
  (∃ value, n = ofInt64 value) ∨ (∃ d, Decimal.readPlain n.text = .ok d) ∨
    ∃ d, Decimal.readScientific n.text = .ok d

theorem toInt64?_ofInt64 (value : Int64) : (ofInt64 value).toInt64? = some value :=
  Literal.asInt64?_ofInt64 value

theorem toInt64?_eq_some {n : Number} {value : Int64} :
    n.toInt64? = some value ↔ n = ofInt64 value := by
  constructor
  · intro h
    cases n with
    | double x => cases h
    | whole whole fits =>
      rw [toInt64?, Option.ite_none_right_eq_some, Option.some.injEq] at h
      obtain ⟨small, rfl⟩ := h
      simp [ofInt64, Int64.toInt_ofInt_of_le fits.1 small]
  · rintro rfl
    exact toInt64?_ofInt64 value

end Number

/-! ### What a value is made of -/

mutual

/-- A value and all that it is made of, each value before its parts. -/
def inside : Json → List Json
  | .array items => .array items :: insideAll items
  | .object members => .object members :: insideMembers members
  | other => [other]

def insideAll : List Json → List Json
  | [] => []
  | item :: rest => inside item ++ insideAll rest

def insideMembers : List (String × Json) → List Json
  | [] => []
  | (_, value) :: rest => inside value ++ insideMembers rest

end

theorem insideAll_eq (items : List Json) : insideAll items = items.flatMap inside := by
  induction items with
  | nil => rfl
  | cons item items ih => rw [insideAll, ih, List.flatMap_cons]

/-- A value is single, or an array of others. An object counts as single. -/
@[elab_as_elim]
theorem induct {motive : Json → Prop} (single : ∀ v, (∀ items, v ≠ .array items) → motive v)
    (array : ∀ items, (∀ item ∈ items, motive item) → motive (.array items)) (v : Json) :
    motive v := by
  cases v with
  | array items => exact array items fun item _ => induct single array item
  | _ => exact single _ (by simp)
termination_by v

/-- A value that is not refused as such, whatever its items are. -/
def Allowed : Json → Prop
  | .null | .object _ => False
  | .array items => 2 ≤ items.length
  | .number n => n.Allowed
  | .string _ | .boolean _ => True

instance (n : Number) : Decidable n.Allowed :=
  decidable_of_iff (n.toInt64?.isSome ∨ (Decimal.readPlain n.text).toOption.isSome ∨
    (Decimal.readScientific n.text).toOption.isSome) <| by
    simp only [Option.isSome_iff_exists, Number.toInt64?_eq_some, Outcome.toOption_eq_some]
    rfl

instance : (v : Json) → Decidable v.Allowed
  | .null | .object _ => .isFalse id
  | .array items => inferInstanceAs (Decidable (2 ≤ items.length))
  | .number n => inferInstanceAs (Decidable n.Allowed)
  | .string _ | .boolean _ => .isTrue trivial

/-- The first of some values that is refused as such. -/
def firstRefused? (values : List Json) : Option Json := values.find? fun v => ¬v.Allowed

theorem firstRefused?_append (values others : List Json) :
    firstRefused? (values ++ others) = (firstRefused? values).or (firstRefused? others) :=
  List.find?_append

theorem firstRefused?_eq_none {values : List Json} :
    firstRefused? values = none ↔ ∀ v ∈ values, v.Allowed := by
  simp [firstRefused?]

end Json

namespace Literal

/-- A literal of the form of a value: strings, truth values and numbers of 64 bits are kept,
other numbers are the decimals that their texts are read as, and arrays are lists of the
literals of their items. -/
inductive Mirrors : Json → Literal → Prop
  | string (value : String) : Mirrors (.string value) (.string value)
  | boolean (value : Bool) : Mirrors (.boolean value) (.boolean value)
  | int (value : Int64) : Mirrors (.number (.ofInt64 value)) (.int value)
  | decimal {n : Json.Number} {d : Decimal} : (∀ value, n ≠ .ofInt64 value) →
    (Decimal.readPlain n.text).toOption.or (Decimal.readScientific n.text).toOption = some d →
    Mirrors (.number n) (.decimal d)
  | multiple {items : List Json} {first second : Literal} {rest : List Literal} :
    List.Forall₂ Mirrors items (first :: second :: rest) →
    Mirrors (.array items) (.multiple first second rest)

/-! ### The values to blame -/

section
variable {α β : Type} {values others : List Json} {x : Except LiteralError α}

/-- A conversion of some values: it fails with the text of the first that is refused, and
succeeds if none is. -/
def Blames (values : List Json) (x : Except LiteralError α) : Prop :=
  match Json.firstRefused? values with
  | some v => x = refuse v.text
  | none => ∃ a, x = .ok a

theorem Blames.bind {f : α → Except LiteralError β} (h : Blames values x)
    (next : ∀ a, x = .ok a → Blames others (f a)) : Blames (values ++ others) (x >>= f) := by
  unfold Blames at h ⊢
  rw [Json.firstRefused?_append]
  cases found : Json.firstRefused? values with
  | some v =>
    rw [found] at h
    rw [h]
    rfl
  | none =>
    rw [found] at h
    obtain ⟨a, rfl⟩ := h
    exact next a rfl

theorem Blames.of_total {f : α → Except LiteralError β} (h : Blames values x)
    (total : ∀ a, x = .ok a → ∃ b, f a = .ok b) : Blames values (x >>= f) := by
  rw [← List.append_nil values]
  exact h.bind total

theorem Blames.ok_iff (h : Blames values x) : (∃ a, x = .ok a) ↔ ∀ v ∈ values, v.Allowed := by
  unfold Blames at h
  rw [← Json.firstRefused?_eq_none]
  split at h
  · rename_i found
    simp [h, found, refuse]
  · rename_i none
    exact iff_of_true h none

theorem Blames.error_iff (h : Blames values x) (e : LiteralError) :
    x = .error e ↔
      ∃ v, Json.firstRefused? values = some v ∧ e = .unsupported (String.ofList v.text) := by
  unfold Blames at h
  split at h
  · rename_i v found
    simp [h, found, refuse, eq_comm]
  · rename_i none
    obtain ⟨a, rfl⟩ := h
    simp [none]

end

/-! ### Conversion -/

theorem toOption_decimalOfText? (text : List Char) :
    (decimalOfText? text).toOption = ((Decimal.readPlain text).toOption.or
      (Decimal.readScientific text).toOption).map .decimal := by
  rw [← Decimal.toOption_read, decimalOfText?]
  cases Decimal.read text <;> rfl

theorem ofNumber?_ofInt64 (value : Int64) : ofNumber? (.ofInt64 value) = .ok (.int value) := by
  rw [ofNumber?, Json.Number.toInt64?_ofInt64]

theorem ofNumber?_of_other {n : Json.Number} (other : ∀ value, n ≠ .ofInt64 value) :
    ofNumber? n = decimalOfText? n.text := by
  have none : n.toInt64? = none := by
    rw [Option.eq_none_iff_forall_ne_some]
    intro value
    rw [ne_eq, Json.Number.toInt64?_eq_some]
    exact other value
  rw [ofNumber?, none]

theorem ofPlainItems?_eq (items : List Json) : ofPlainItems? items = items.mapM ofPlainJson? := by
  induction items with
  | nil => rfl
  | cons item items ih => rw [ofPlainItems?, List.mapM_cons, ih]

theorem ofPlainJson?_array {items : List Json} (long : 2 ≤ items.length) :
    ofPlainJson? (.array items) = items.mapM ofPlainJson? >>= multiple? := by
  match items, long with
  | first :: second :: rest, _ =>
    rw [ofPlainJson?, ofPlainItems?_eq, List.mapM_cons, List.mapM_cons]
    cases ofPlainJson? first <;> cases ofPlainJson? second <;>
      cases List.mapM ofPlainJson? rest <;> rfl

theorem ofPlainJson?_short {items : List Json} (short : ¬2 ≤ items.length) :
    ofPlainJson? (.array items) = refuse (Json.array items).text := by
  match items, short with
  | [], _ => rfl
  | [_], _ => rfl
  | _ :: _ :: _, short => exact absurd (by simp) short

/-- A number becomes a literal of its form, if there is one. -/
theorem ofNumber?_eq_ok {n : Json.Number} {l : Literal} :
    ofNumber? n = .ok l ↔ Mirrors (.number n) l := by
  by_cases whole : ∃ value, n = .ofInt64 value
  · obtain ⟨value, rfl⟩ := whole
    rw [ofNumber?_ofInt64]
    constructor
    · rintro ⟨⟩
      exact .int value
    · intro h
      generalize same : Json.Number.ofInt64 value = n at h
      cases h with
      | int value' =>
        have found := congrArg Json.Number.toInt64? same
        rw [Json.Number.toInt64?_ofInt64, Json.Number.toInt64?_ofInt64] at found
        rw [Option.some.inj found]
      | decimal other reads => exact absurd same.symm (other value)
  · have other (value : Int64) (same : n = .ofInt64 value) : False := whole ⟨value, same⟩
    rw [ofNumber?_of_other other, ← Outcome.toOption_eq_some, toOption_decimalOfText?,
      Option.map_eq_some_iff]
    constructor
    · rintro ⟨d, reads, rfl⟩
      exact .decimal other reads
    · intro h
      cases h with
      | int value => exact absurd rfl (other value)
      | decimal _ reads => exact ⟨_, reads, rfl⟩

theorem ofNumber?_isOk (n : Json.Number) : (∃ l, ofNumber? n = .ok l) ↔ n.Allowed := by
  by_cases whole : ∃ value, n = .ofInt64 value
  · obtain ⟨value, rfl⟩ := whole
    exact iff_of_true ⟨_, ofNumber?_ofInt64 value⟩ (.inl ⟨value, rfl⟩)
  · have other (value : Int64) (same : n = .ofInt64 value) : False := whole ⟨value, same⟩
    simp only [ofNumber?_of_other other, ← Outcome.toOption_eq_some, toOption_decimalOfText?,
      ← Option.isSome_iff_exists, Option.isSome_map, Option.isSome_or, Bool.or_eq_true,
      Json.Number.Allowed, whole, false_or]

theorem ofNumber?_of_not_allowed {n : Json.Number} (h : ¬n.Allowed) :
    ofNumber? n = refuse n.text := by
  rw [← ofNumber?_isOk] at h
  unfold ofNumber? decimalOfText? at h ⊢
  split at h
  · exact absurd ⟨_, rfl⟩ h
  · split at h
    · exact absurd ⟨_, rfl⟩ h
    · rfl

/-! ### Blame -/

/-- Nothing comes before a value that is refused as such. -/
theorem blames_refused {v : Json} (h : ¬v.Allowed) (parts : List Json) :
    Blames (v :: parts) (refuse v.text : Except LiteralError Literal) := by
  unfold Blames Json.firstRefused?
  rw [List.find?_cons_of_pos (by simpa using h)]

theorem Blames.of_allowed {α : Type} {v : Json} (h : v.Allowed) {parts : List Json}
    {x : Except LiteralError α} (rest : Blames parts x) : Blames (v :: parts) x := by
  unfold Blames Json.firstRefused? at rest ⊢
  rw [List.find?_cons_of_neg (by simpa using h)]
  exact rest

theorem blames_number (n : Json.Number) : Blames [.number n] (ofNumber? n) := by
  by_cases allowed : n.Allowed
  · have value : (Json.number n).Allowed := allowed
    exact .of_allowed value ((ofNumber?_isOk n).mpr allowed)
  · have value : ¬(Json.number n).Allowed := allowed
    rw [ofNumber?_of_not_allowed allowed]
    exact blames_refused value []

theorem blames_items {items : List Json}
    (each : ∀ item ∈ items, Blames item.inside (ofPlainJson? item)) :
    Blames (items.flatMap Json.inside) (items.mapM ofPlainJson?) := by
  induction items with
  | nil => exact ⟨[], rfl⟩
  | cons item items ih =>
    obtain ⟨own, others⟩ := List.forall_mem_cons.mp each
    rw [List.mapM_cons, List.flatMap_cons]
    apply own.bind
    intro literal _
    exact (ih others).of_total fun literals _ => ⟨literal :: literals, rfl⟩

/-- Two literals or more make one. -/
theorem multiple?_of_long {literals : List Literal} (long : 2 ≤ literals.length) :
    ∃ l, multiple? literals = .ok l := by
  match literals, long with
  | first :: second :: rest, _ => exact ⟨.multiple first second rest, rfl⟩

/-- **A value is converted if all values inside it are allowed; otherwise the first that is not
is to blame.** An array that is too short comes before its items. -/
theorem blames_value (v : Json) : Blames v.inside (ofPlainJson? v) := by
  induction v using Json.induct with
  | single v single =>
    cases v with
    | null => exact blames_refused id []
    | object members => exact blames_refused id _
    | number n => exact blames_number n
    | array items => exact absurd rfl (single items)
    | string value => exact ⟨_, rfl⟩
    | boolean value => exact ⟨_, rfl⟩
  | array items ih =>
    rw [Json.inside, Json.insideAll_eq]
    by_cases long : (Json.array items).Allowed
    · rw [ofPlainJson?_array long]
      apply Blames.of_allowed long
      apply (blames_items ih).of_total
      intro literals found
      have same := (Outcome.mapM_eq_ok.mp found).length_eq
      exact multiple?_of_long (same ▸ long)
    · rw [ofPlainJson?_short long]
      exact blames_refused long _

/-! ### Form -/

/-- **A value becomes exactly the literal of its form.** -/
theorem ofPlainJson?_eq_ok (v : Json) (l : Literal) : ofPlainJson? v = .ok l ↔ Mirrors v l := by
  induction v using Json.induct generalizing l with
  | single v single =>
    cases v with
    | number n => exact ofNumber?_eq_ok
    | array items => exact absurd rfl (single items)
    | string value =>
      constructor
      · rintro ⟨⟩
        exact .string value
      · rintro ⟨⟩
        rfl
    | boolean value =>
      constructor
      · rintro ⟨⟩
        exact .boolean value
      · rintro ⟨⟩
        rfl
    | null => constructor <;> rintro ⟨⟩
    | object members => constructor <;> rintro ⟨⟩
  | array items ih =>
    constructor
    · intro h
      by_cases long : 2 ≤ items.length
      · rw [ofPlainJson?_array long, Outcome.bind_eq_ok] at h
        obtain ⟨literals, found, made⟩ := h
        obtain ⟨first, second, rest, rfl, rfl⟩ := multiple?_eq_ok.mp made
        have each := (List.forall₂_and_left _ _).mpr ⟨ih, Outcome.mapM_eq_ok.mp found⟩
        exact .multiple (each.imp fun item literal ⟨own, h⟩ => (own literal).mp h)
      · rw [ofPlainJson?_short long] at h
        cases h
    · intro h
      cases h with
      | @multiple _ first second rest mirrored =>
        have long : 2 ≤ items.length := by simp [mirrored.length_eq]
        have each := (List.forall₂_and_left _ _).mpr ⟨ih, mirrored⟩
        have found : items.mapM ofPlainJson? = .ok (first :: second :: rest) :=
          Outcome.mapM_eq_ok.mpr (each.imp fun item literal ⟨own, h⟩ => (own literal).mpr h)
        rw [ofPlainJson?_array long]
        exact Outcome.bind_of_ok found rfl

/-! ### Reading back -/

/-- A literal of the form of a value has no zoned date-times. -/
theorem Mirrors.zoned_eq_nil {v : Json} {l : Literal} (h : Mirrors v l) : l.zoned = [] := by
  induction v using Json.induct generalizing l with
  | single v single =>
    cases h with
    | multiple => exact absurd rfl (single _)
    | _ => rfl
  | array items ih =>
    cases h with
    | @multiple _ first second rest mirrored =>
      have each := ((List.forall₂_and_left _ _).mpr ⟨ih, mirrored⟩).flip
      have none := each.imp fun literal item ⟨own, h⟩ => And.intro (own h) h
      rw [zoned_multiple, List.flatMap_eq_nil_iff]
      exact ((List.forall₂_and_left _ _).mp none).1

theorem readable_eq (l : Literal) : l.readable = l.zoned.all ZonedDateTime.readable := by
  induction l using induct with
  | single l h =>
    cases l with
    | multiple => exact absurd rfl h
    | zonedDateTime value => simp [readable, zoned]
    | _ => rfl
  | multiple first second rest hfirst hsecond hrest =>
    have others : rest.all readable = rest.all fun l => l.zoned.all ZonedDateTime.readable := by
      rw [Bool.eq_iff_iff, List.all_eq_true, List.all_eq_true]
      exact forall₂_congr fun l hl => by rw [hrest l hl]
    rw [zoned_multiple, List.all_flatMap, List.all_cons, List.all_cons, ← hfirst, ← hsecond,
      ← others, readable, readableAll_eq, Bool.and_assoc]

/-- A literal without zoned date-times is equal to what its text says. -/
theorem parseLiteral_text_of_zoned {l : Literal} (h : l.zoned = []) :
    ∃ l', parseLiteral l.text = .ok l' ∧ l.equal l' = true := by
  have readable : l.readable = true := by rw [readable_eq, h, List.all_nil]
  have parsed := toOption_parseLiteral_text l
  rw [if_pos readable, Outcome.toOption_eq_some] at parsed
  exact ⟨l.normal, parsed, l.equal_normal⟩

/-- A literal without zoned date-times is equal to what its stored form says. -/
theorem ofJson_toJson_of_zoned {l : Literal} (h : l.zoned = []) :
    ∃ l', ofJson l.toJson = .ok l' ∧ l.equal l' = true := by
  have none : ∀ z ∈ l.zoned, False := by simp [h]
  have read := ofJson_toJson l (fun z hz => (none z hz).elim) fun z hz => (none z hz).elim
  exact ⟨l.stored, read, l.equal_stored⟩

end Literal

open Literal

/-- **Conversion mirrors exactly the plain values without `null` and objects, whose arrays have
two items or more and whose numbers have 64 bits or are decimals.** The literal has the form of
the value and is equal to what its text and its stored form say. Where there is none, the first
value inside that is not allowed is to blame. -/
theorem plain_values_mirrored (v : Json) :
    ((∃ l, ofPlainJson? v = .ok l) ↔ ∀ w ∈ v.inside, w.Allowed) ∧
    (∀ l, ofPlainJson? v = .ok l ↔ Mirrors v l) ∧
    (∀ l, ofPlainJson? v = .ok l →
      (∃ l', parseLiteral l.text = .ok l' ∧ l.equal l' = true) ∧
      ∃ l', ofJson l.toJson = .ok l' ∧ l.equal l' = true) ∧
    ∀ e, ofPlainJson? v = .error e ↔
      ∃ w, Json.firstRefused? v.inside = some w ∧ e = .unsupported (String.ofList w.text) := by
  have blames := blames_value v
  refine ⟨blames.ok_iff, ofPlainJson?_eq_ok v, ?_, blames.error_iff⟩
  intro l made
  have mirrored := (ofPlainJson?_eq_ok v l).mp made
  have none := mirrored.zoned_eq_nil
  exact ⟨parseLiteral_text_of_zoned none, ofJson_toJson_of_zoned none⟩

theorem nested_list_mirrored :
    let v : Json := .array [.ofInt64 1, .string "a", .array [.ofInt64 2, .ofInt64 3]]
    let l : Literal := .multiple (.int 1) (.string "a") [.multiple (.int 2) (.int 3) []]
    ofPlainJson? v = .ok l ∧ (∃ l', parseLiteral l.text = .ok l' ∧ l.equal l' = true) ∧
      ∃ l', ofJson l.toJson = .ok l' ∧ l.equal l' = true := by
  intro v l
  have made : ofPlainJson? v = .ok l := rfl
  exact ⟨made, (plain_values_mirrored v).2.2.1 l made⟩

/-- A short array is to blame before its items, and before all that follows. -/
example : ofPlainJson? (.array [.string "a", .array [.null], .null]) =
    .error (.unsupported "[null]") := rfl

end CatalogQuery
