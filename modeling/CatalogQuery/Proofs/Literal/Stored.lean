import CatalogQuery.Literal.Json
import CatalogQuery.Proofs.Calendar.Stored
import CatalogQuery.Proofs.Literal.RoundTrip

namespace CatalogQuery

open Json (wanted accepted)

namespace Range

variable {α : Type} [LE α]

theorem forall_bounds {P : α → Prop} {r : Range α} :
    (∀ a ∈ r.bounds, P a) ↔ (∀ a ∈ r.lower, P a) ∧ ∀ a ∈ r.upper, P a := by
  simp only [bounds, List.mem_append, Option.mem_toList, Option.mem_def, or_imp, forall_and]

end Range

namespace Literal

mutual

def zoned : Literal → List ZonedDateTime
  | .zonedDateTime value => [value]
  | .dateTimeRange range => range.bounds
  | .multiple first second rest => zoned first ++ (zoned second ++ zonedAll rest)
  | _ => []

def zonedAll : List Literal → List ZonedDateTime
  | [] => []
  | first :: rest => zoned first ++ zonedAll rest

end

mutual

/-- The literal that the stored form of a literal with whole offsets says. -/
def stored : Literal → Literal
  | .decimal value => .decimal value.unsignedZero
  | .decimalRange range =>
    .decimalRange (range.map Decimal.unsignedZero fun a b =>
      (Decimal.unsignedZero_le_unsignedZero a b).mpr)
  | .multiple first second rest => .multiple (stored first) (stored second) (storedAll rest)
  | other => other

def storedAll : List Literal → List Literal
  | [] => []
  | first :: rest => stored first :: storedAll rest

end

theorem zonedAll_eq (ls : List Literal) : zonedAll ls = ls.flatMap zoned := by
  induction ls with
  | nil => rfl
  | cons l ls ih => rw [zonedAll, ih, List.flatMap_cons]

theorem zoned_multiple (first second : Literal) (rest : List Literal) :
    zoned (.multiple first second rest) = (first :: second :: rest).flatMap zoned := by
  rw [zoned, zonedAll_eq, List.flatMap_cons, List.flatMap_cons]

theorem storedAll_eq (ls : List Literal) : storedAll ls = ls.map stored := by
  induction ls with
  | nil => rfl
  | cons l ls ih => rw [storedAll, ih, List.map_cons]

theorem listToJson_eq (ls : List Literal) : listToJson ls = ls.map toJson := by
  induction ls with
  | nil => rfl
  | cons l ls ih => rw [listToJson, ih, List.map_cons]

theorem kind_stored (l : Literal) : l.stored.kind = l.kind := by
  cases l <;> rfl

theorem equal_stored (l : Literal) : l.equal l.stored = true := by
  induction l using induct with
  | single l h =>
    cases l with
    | decimal value => exact value.equal_unsignedZero
    | zonedDateTime value => exact beq_self_eq_true value.utc
    | intRange range => exact range.equal_self fun a => beq_self_eq_true a
    | decimalRange range => exact range.equal_map Decimal.equal_unsignedZero
    | dateTimeRange range => exact range.equal_self fun a => beq_self_eq_true a.utc
    | multiple => exact absurd rfl h
    | _ => simp [stored, equal]
  | multiple first second rest hfirst hsecond hrest =>
    rw [stored, equal, hfirst, hsecond, storedAll_eq, equalAll_map hrest]
    rfl

/-! ### The form of what is stored -/

theorem kindOfJson?_tagged (kind : LiteralKind) (value : Json) :
    kindOfJson? (tagged kind value) = some kind := by
  have tag : (tagged kind value).tag? "kind" = some kind.tag := rfl
  rw [kindOfJson?, tag, Option.bind_some, LiteralKind.ofTag?_tag]

/-- A value under its kind is read as a value of the kind. -/
theorem ofJson_tagged (kind : LiteralKind) (value : Json) :
    ofJson (tagged kind value) = valueOfJson kind value := by
  have field : (tagged kind value).field? 1 "value" = some value := rfl
  have record : (tagged kind value).isRecord 2 = true := rfl
  rw [ofJson, kindOfJson?_tagged]
  apply Outcome.bind_of_ok rfl
  split
  · rename_i none
    rw [field] at none
    cases none
  · rename_i own some
    rw [field] at some
    cases some
    rw [record]
    cases valueOfJson kind value <;> rfl

theorem ofJson_scalar {kind : LiteralKind} (single : kind ≠ .multiple) (value : Json) :
    ofJson (tagged kind value) = scalarOfJson kind value := by
  rw [ofJson_tagged, valueOfJson]
  rintro items rfl
  exact absurd rfl single

/-! ### Ranges -/

section
variable {α : Type} {write : α → Json} {decode : Json → Option α}

/-- A bound that is there is read, and one that is missing is `null`. -/
theorem optional?_elim (present : ∀ a, write a ≠ .null) (bound : Option α) :
    Json.optional? decode (some (bound.elim .null write)) =
      bound.elim (some none) fun a => (decode (write a)).map some := by
  cases bound with
  | none => rfl
  | some a =>
    have some := present a
    rw [Option.elim_some, Option.elim_some]
    unfold Json.optional?
    split
    · contradiction
    · rename_i null
      exact absurd (Option.some.inj null) some
    · rename_i own
      cases own
      rfl

theorem bounds?_rangeJson [LE α] (present : ∀ a, write a ≠ .null) (r : Range α) :
    (rangeJson write r).bounds? decode =
      (r.lower.elim (some none) fun a => (decode (write a)).map some).bind fun lower =>
        (r.upper.elim (some none) fun a => (decode (write a)).map some).map fun upper =>
          (lower, upper) := by
  have lower : (rangeJson write r).bound? decode 0 "from" =
      Json.optional? decode (some (r.lower.elim .null write)) := rfl
  have upper : (rangeJson write r).bound? decode 1 "to" =
      Json.optional? decode (some (r.upper.elim .null write)) := rfl
  have record : (rangeJson write r).isRecord 2 = true := rfl
  rw [Json.bounds?, if_pos record, lower, upper, optional?_elim present, optional?_elim present]
  cases r.lower.elim (some none) fun a => (decode (write a)).map some with
  | none => rfl
  | some lower =>
    cases r.upper.elim (some none) fun a => (decode (write a)).map some <;> rfl

/-- The bounds of a range are read as what each of them is read as. -/
theorem bounds?_of_decode [LE α] {f : α → α} (present : ∀ a, write a ≠ .null) {r : Range α}
    (h : ∀ a ∈ r.bounds, decode (write a) = some (f a)) :
    (rangeJson write r).bounds? decode = some (r.lower.map f, r.upper.map f) := by
  obtain ⟨hlower, hupper⟩ := Range.forall_bounds.mp h
  have each {bound : Option α} (h : ∀ a ∈ bound, decode (write a) = some (f a)) :
      (bound.elim (some none) fun a => (decode (write a)).map some) = some (bound.map f) := by
    cases bound with
    | none => rfl
    | some a => rw [Option.elim_some, h a rfl]; rfl
  rw [bounds?_rangeJson present, each hlower, each hupper]
  rfl

end

/-! ### Values -/

theorem asInt64?_ofInt64 (n : Int64) : (Json.ofInt64 n).asInt64? = some n := by
  have small := n.toInt_lt
  change (if n.toInt < 9223372036854775808 then some (Int64.ofInt n.toInt) else none) = some n
  rw [if_pos (by omega), Int64.ofInt_toInt]

theorem asDecimal?_textJson (d : Decimal) : (textJson d.text).asDecimal? = some d.unsignedZero := by
  rw [textJson, Json.asDecimal?, String.toList_ofList, Decimal.read_text]
  rfl

theorem asReadBy?_textJson {ε α : Type} (read : List Char → Except ε α) (text : List Char) :
    (textJson text).asReadBy? read = (read text).toOption := by
  change (read (String.ofList text).toList).toOption = _
  rw [String.toList_ofList]

theorem asZoned?_of_whole {z : ZonedDateTime} (year : z.HasPlainYear) (whole : z.HasWholeOffset) :
    (textJson z.jsonText).asZoned? = some z := by
  rw [Json.asZoned?, asReadBy?_textJson, Calendar.readJsonZoned_of_whole year whole]
  rfl

theorem bounds?_int (r : Range Int64) :
    (rangeJson .ofInt64 r).bounds? Json.asInt64? = some (r.lower, r.upper) := by
  have bounds : (rangeJson .ofInt64 r).bounds? Json.asInt64? =
      some (r.lower.map id, r.upper.map id) := by
    apply bounds?_of_decode
    · intro n
      exact nofun
    · intro n _
      exact asInt64?_ofInt64 n
  rwa [Option.map_id, id, id] at bounds

theorem bounds?_decimal (r : Range Decimal) :
    (rangeJson (textJson ·.text) r).bounds? Json.asDecimal? =
      some (r.lower.map Decimal.unsignedZero, r.upper.map Decimal.unsignedZero) := by
  apply bounds?_of_decode
  · intro d
    exact nofun
  · intro d _
    exact asDecimal?_textJson d

theorem bounds?_zoned {r : Range ZonedDateTime} (years : ∀ z ∈ r.bounds, z.HasPlainYear)
    (whole : ∀ z ∈ r.bounds, z.HasWholeOffset) :
    (rangeJson (textJson ·.jsonText) r).bounds? Json.asZoned? = some (r.lower, r.upper) := by
  have bounds : (rangeJson (textJson ·.jsonText) r).bounds? Json.asZoned? =
      some (r.lower.map id, r.upper.map id) := by
    apply bounds?_of_decode
    · intro z
      exact nofun
    · intro z hz
      exact asZoned?_of_whole (years z hz) (whole z hz)
  rwa [Option.map_id, id, id] at bounds

theorem multiple?_eq_ok {literals : List Literal} {l : Literal} :
    multiple? literals = .ok l ↔ ∃ first second rest, literals = first :: second :: rest ∧
      l = .multiple first second rest := by
  match literals with
  | [] => simp [multiple?]
  | [_] => simp [multiple?]
  | first :: second :: rest => simp [multiple?, eq_comm]

/-! ### Whole offsets -/

theorem listOfJson_eq (items : List Json) : listOfJson items = items.mapM ofJson := by
  induction items with
  | nil => rw [listOfJson, List.mapM_nil]; rfl
  | cons item items ih => rw [listOfJson, List.mapM_cons, ih]

theorem listOfJson_map {ls : List Literal} {f : Literal → Literal}
    (h : ∀ l ∈ ls, ofJson l.toJson = .ok (f l)) : listOfJson (ls.map toJson) = .ok (ls.map f) := by
  rw [listOfJson_eq, Outcome.mapM_eq_ok, List.forall₂_map_left_iff, List.forall₂_map_right_iff,
    List.forall₂_same]
  exact h

/-- A stored literal with whole offsets is read back, but for the signs of zeros. -/
theorem ofJson_toJson (l : Literal) (years : ∀ z ∈ l.zoned, z.HasPlainYear)
    (whole : ∀ z ∈ l.zoned, z.HasWholeOffset) : ofJson l.toJson = .ok l.stored := by
  induction l using induct with
  | single l h =>
    cases l with
    | int value =>
      refine (ofJson_scalar h _).trans ?_
      rw [kind, scalarOfJson, asInt64?_ofInt64]
      rfl
    | decimal value =>
      refine (ofJson_scalar h _).trans ?_
      rw [kind, scalarOfJson, asDecimal?_textJson]
      rfl
    | date value =>
      refine (ofJson_scalar h _).trans ?_
      rw [kind, scalarOfJson, asReadBy?_textJson, Calendar.readJsonDate_text]
      rfl
    | time value =>
      refine (ofJson_scalar h _).trans ?_
      rw [kind, scalarOfJson, asReadBy?_textJson, Calendar.readJsonTime_text]
      rfl
    | dateTime value =>
      refine (ofJson_scalar h _).trans ?_
      rw [kind, scalarOfJson, asReadBy?_textJson, Calendar.readJsonDateTime_text]
      rfl
    | zonedDateTime value =>
      have own := List.mem_singleton_self value
      refine (ofJson_scalar h _).trans ?_
      rw [kind, scalarOfJson, asZoned?_of_whole (years _ own) (whole _ own)]
      rfl
    | intRange range =>
      refine (ofJson_scalar h _).trans ?_
      rw [kind, scalarOfJson, bounds?_int]
      exact Outcome.bind_of_ok rfl (accepted_eq_ok.mpr (intRange?_self range))
    | decimalRange range =>
      refine (ofJson_scalar h _).trans ?_
      rw [kind, scalarOfJson, bounds?_decimal]
      have made := decimalRange?_self (range.map Decimal.unsignedZero fun a b =>
        (Decimal.unsignedZero_le_unsignedZero a b).mpr)
      exact Outcome.bind_of_ok rfl (accepted_eq_ok.mpr made)
    | dateTimeRange range =>
      refine (ofJson_scalar h _).trans ?_
      rw [kind, scalarOfJson, bounds?_zoned years whole]
      exact Outcome.bind_of_ok rfl (accepted_eq_ok.mpr (dateTimeRange?_self range))
    | enum token =>
      have own : enum? token.word = .ok (.enum token) := by
        rw [enum?, EnumToken.ofWord?, dif_pos token.wellFormed]
      refine (ofJson_scalar h _).trans ?_
      exact Outcome.bind_of_ok rfl (accepted_eq_ok.mpr own)
    | locale tag =>
      have own : locale? tag.tag = .ok (.locale tag) := by
        rw [locale?, Locale.ofTag?, dif_pos tag.wellFormed]
      refine (ofJson_scalar h _).trans ?_
      exact Outcome.bind_of_ok rfl (accepted_eq_ok.mpr own)
    | multiple => exact absurd rfl h
    | _ => exact ofJson_scalar h _
  | multiple first second rest hfirst hsecond hrest =>
    rw [zoned_multiple] at years whole
    have each : ∀ l ∈ first :: second :: rest, ofJson l.toJson = .ok l.stored := by
      have below := List.forall_mem_cons.mpr ⟨hfirst, List.forall_mem_cons.mpr ⟨hsecond, hrest⟩⟩
      intro l hl
      apply below l hl
      · intro z hz
        exact years z (List.mem_flatMap_of_mem hl hz)
      · intro z hz
        exact whole z (List.mem_flatMap_of_mem hl hz)
    have items := listOfJson_map each
    rw [toJson, ofJson_tagged, valueOfJson, listToJson_eq]
    apply Outcome.bind_of_ok items
    rw [stored, storedAll_eq]
    rfl

/-! ### Other offsets -/

/-- The members of a list that reads back as an equal one read back as equal ones. -/
theorem readsBack_of_listOfJson {ls ls' : List Literal} (h : listOfJson (ls.map toJson) = .ok ls')
    (same : equalAll ls ls' = true) :
    ∀ l ∈ ls, ∃ l', ofJson l.toJson = .ok l' ∧ l.equal l' = true := by
  rw [listOfJson_eq, Outcome.mapM_eq_ok, List.forall₂_map_left_iff] at h
  exact Outcome.exists_of_forall₂ h (equalAll_iff.mp same)

/-- A zoned date-time that is read as one of the same instant has a whole offset. -/
theorem whole_of_asZoned? {z z' : ZonedDateTime} (year : z.HasPlainYear)
    (h : (textJson z.jsonText).asZoned? = some z') (same : z.sameInstant z' = true) :
    z.HasWholeOffset := by
  rw [Json.asZoned?, asReadBy?_textJson, Outcome.toOption_eq_some] at h
  by_contra odd
  rw [Calendar.instant_moves_of_odd year odd h] at same
  cases same

/-- The same for a bound that may be missing. -/
theorem whole_of_bound {bound bound' : Option ZonedDateTime}
    (years : ∀ z ∈ bound, z.HasPlainYear)
    (h : (bound.elim (some none) fun z => ((textJson z.jsonText).asZoned?).map some) = some bound')
    (same : Range.equal.sameBound ZonedDateTime.sameInstant bound bound' = true) :
    ∀ z ∈ bound, z.HasWholeOffset := by
  rintro z rfl
  obtain ⟨z', hz, rfl⟩ := Option.map_eq_some_iff.mp h
  exact whole_of_asZoned? (years z rfl) hz same

/-- What reads back as an equal literal has whole offsets. -/
theorem whole_of_readsBack {l l' : Literal} (years : ∀ z ∈ l.zoned, z.HasPlainYear)
    (h : ofJson l.toJson = .ok l') (same : l.equal l' = true) :
    ∀ z ∈ l.zoned, z.HasWholeOffset := by
  induction l using induct generalizing l' with
  | single l single =>
    cases l with
    | zonedDateTime value =>
      have own := List.mem_singleton_self value
      replace h := (ofJson_scalar single _).symm.trans h
      obtain ⟨z', hz, rfl⟩ := Outcome.map_eq_ok.mp h
      intro z hz'
      cases List.mem_singleton.mp hz'
      exact whole_of_asZoned? (years _ own) (wanted_eq_ok.mp hz) same
    | dateTimeRange range =>
      replace h := (ofJson_scalar single _).symm.trans h
      obtain ⟨⟨lower, upper⟩, hbounds, h⟩ := Outcome.bind_eq_ok.mp h
      obtain ⟨r, hr, rfl⟩ := Outcome.map_eq_ok.mp (accepted_eq_ok.mp h)
      obtain ⟨rfl, rfl⟩ := parts_of_make (mapFault_eq_ok.mp hr)
      have hbounds := wanted_eq_ok.mp hbounds
      have present : ∀ z : ZonedDateTime, textJson z.jsonText ≠ .null := fun _ => nofun
      rw [bounds?_rangeJson present, Option.bind_eq_some_iff] at hbounds
      obtain ⟨lower, hlower, hbounds⟩ := hbounds
      obtain ⟨upper, hupper, parts⟩ := Option.map_eq_some_iff.mp hbounds
      cases parts
      obtain ⟨lowerYears, upperYears⟩ := Range.forall_bounds.mp years
      rw [equal, Range.equal, Bool.and_eq_true] at same
      exact Range.forall_bounds.mpr ⟨whole_of_bound lowerYears hlower same.1,
        whole_of_bound upperYears hupper same.2⟩
    | multiple => exact absurd rfl single
    | _ =>
      intro z hz
      cases hz
  | multiple first second rest hfirst hsecond hrest =>
    have below := List.forall_mem_cons.mpr ⟨@hfirst, List.forall_mem_cons.mpr ⟨@hsecond, @hrest⟩⟩
    rw [toJson, ofJson_tagged, valueOfJson, listToJson_eq] at h
    obtain ⟨items, hitems, h⟩ := Outcome.bind_eq_ok.mp h
    have h := accepted_eq_ok.mp h
    obtain ⟨first', second', rest', rfl⟩ : ∃ a b ls, items = a :: b :: ls := by
      unfold multiple? at h
      split at h
      · exact ⟨_, _, _, rfl⟩
      · cases h
    cases h
    have same : equalAll (first :: second :: rest) (first' :: second' :: rest') = true := by
      rw [equalAll, equalAll, ← Bool.and_assoc]
      exact same
    have hitems : listOfJson ((first :: second :: rest).map toJson) =
        .ok (first' :: second' :: rest') := hitems
    rw [zoned_multiple] at years ⊢
    intro z hz
    obtain ⟨l, hl, hz⟩ := List.mem_flatMap.mp hz
    obtain ⟨l', hl', equal⟩ := readsBack_of_listOfJson hitems same l hl
    refine below l hl ?_ hl' equal z hz
    intro z hz
    exact years z (List.mem_flatMap_of_mem hl hz)

end Literal
end CatalogQuery
