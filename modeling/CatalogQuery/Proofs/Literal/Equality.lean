import CatalogQuery.Proofs.Decimal.Readings
import CatalogQuery.Proofs.Literal.Normal

namespace CatalogQuery

/-- Members are related one by one exactly if they are mapped to the same. -/
theorem forall₂_iff_map_eq {α β γ : Type} {R : α → β → Prop} {f : α → γ} {g : β → γ}
    {as : List α} {bs : List β} (h : ∀ a ∈ as, ∀ b, R a b ↔ f a = g b) :
    List.Forall₂ R as bs ↔ as.map f = bs.map g := by
  induction as generalizing bs with
  | nil => cases bs <;> simp
  | cons a as ih =>
    obtain ⟨first, others⟩ := List.forall_mem_cons.mp h
    cases bs with
    | nil => simp
    | cons b bs => simp [first b, ih others]

/-- A relation that holds exactly between what a function takes to the same is an equivalence. -/
theorem equivalence_of_iff {α β : Type} {R : α → α → Prop} {f : α → β}
    (h : ∀ a b, R a b ↔ f a = f b) : Equivalence R where
  refl a := (h a a).mpr rfl
  symm same := (h _ _).mpr ((h _ _).mp same).symm
  trans first second := (h _ _).mpr (((h _ _).mp first).trans ((h _ _).mp second))

theorem Range.equal_iff {α β : Type} [LE α] {same : α → α → Bool} {f : α → β}
    (h : ∀ a b, same a b = true ↔ f a = f b) (r r' : Range α) :
    r.equal same r' = true ↔
      r.lower.map f = r'.lower.map f ∧ r.upper.map f = r'.upper.map f := by
  have bound (b b' : Option α) : equal.sameBound same b b' = true ↔ b.map f = b'.map f := by
    cases b <;> cases b' <;> simp [equal.sameBound, h]
  rw [equal, Bool.and_eq_true, bound, bound]

theorem ZonedDateTime.sameInstant_iff (a b : ZonedDateTime) :
    a.sameInstant b = true ↔ a.utc = b.utc := by
  simp [sameInstant]

/-- What a literal stands for. -/
inductive Meaning
  | string (value : String)
  | int (value : Int64)
  | decimal (number : ℚ)
  | boolean (value : Bool)
  | date (value : Date)
  | time (value : Time)
  | dateTime (value : DateTime)
  /-- An instant, by universal time. -/
  | instant (utc : DateTime)
  | intRange (lower upper : Option Int64)
  | decimalRange (lower upper : Option ℚ)
  | instantRange (lower upper : Option DateTime)
  | enum (token : EnumToken)
  | locale (tag : Locale)
  | multiple (members : List Meaning)

namespace Literal

mutual

/-- The meaning of a literal. Decimals mean numbers, whatever their places, and zoned date-times
mean instants, whatever their offsets. -/
def meaning : Literal → Meaning
  | .string value => .string value
  | .int value => .int value
  | .decimal value => .decimal value.value
  | .boolean value => .boolean value
  | .date value => .date value
  | .time value => .time value
  | .dateTime value => .dateTime value
  | .zonedDateTime value => .instant value.utc
  | .intRange range => .intRange range.lower range.upper
  | .decimalRange range =>
    .decimalRange (range.lower.map Decimal.value) (range.upper.map Decimal.value)
  | .dateTimeRange range =>
    .instantRange (range.lower.map ZonedDateTime.utc) (range.upper.map ZonedDateTime.utc)
  | .enum token => .enum token
  | .locale tag => .locale tag
  | .multiple first second rest =>
    .multiple (meaning first :: meaning second :: meanings rest)

def meanings : List Literal → List Meaning
  | [] => []
  | first :: rest => meaning first :: meanings rest

end

theorem meanings_eq (ls : List Literal) : meanings ls = ls.map meaning := by
  induction ls with
  | nil => rfl
  | cons l ls ih => rw [meanings, ih, List.map_cons]

/-- A single value is equal to what means the same. -/
theorem equal_iff_single {l : Literal} (h : l.kind ≠ .multiple) (l' : Literal) :
    l.equal l' = true ↔ l.meaning = l'.meaning := by
  cases l with
  | multiple => exact absurd rfl h
  | intRange range =>
    have own (range' : Range Int64) : range.equal (· == ·) range' = true ↔
        range.lower = range'.lower ∧ range.upper = range'.upper := by
      simpa using range.equal_iff (f := id) (fun _ _ => beq_iff_eq) range'
    cases l' <;> simp [equal, meaning, own]
  | decimalRange range =>
    cases l' <;> simp [equal, meaning, range.equal_iff Decimal.equal_iff_value]
  | dateTimeRange range =>
    cases l' <;> simp [equal, meaning, range.equal_iff ZonedDateTime.sameInstant_iff]
  | _ =>
    cases l' <;> simp [equal, meaning, Decimal.equal_iff_value, ZonedDateTime.sameInstant_iff]

/-- **Literals are equal exactly if they mean the same.** -/
theorem equal_iff_meaning (l l' : Literal) : l.equal l' = true ↔ l.meaning = l'.meaning := by
  induction l using induct generalizing l' with
  | single l single => exact equal_iff_single single l'
  | multiple first second rest ihFirst ihSecond ihRest =>
    cases l' with
    | multiple first' second' rest' =>
      simp only [equal, meaning, meanings_eq, Bool.and_eq_true, equalAll_iff, ihFirst, ihSecond,
        forall₂_iff_map_eq ihRest, Meaning.multiple.injEq, List.cons.injEq, and_assoc]
    | _ => simp [equal, meaning]

theorem equivalence_equal : Equivalence fun l l' : Literal => l.equal l' = true :=
  equivalence_of_iff equal_iff_meaning

end Literal
end CatalogQuery
