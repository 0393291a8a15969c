import CatalogQuery.Literal.Printer
import CatalogQuery.Proofs.Calendar.Zoned
import CatalogQuery.Proofs.Decimal.Order
import Mathlib.Data.List.Forall2

namespace CatalogQuery

/-- A text that can only get shorter stays the same exactly if nothing of it is left out. -/
theorem eq_iff_nothing_extra {a b : List Char} {extra : Nat} (longer : a.length = b.length + extra)
    (same : extra = 0 → b = a) : b = a ↔ extra = 0 := by
  constructor
  · rintro rfl
    omega
  · exact same

namespace Range

section
variable {α : Type}

theorem sameBound_map {same : α → α → Bool} {f : α → α} (h : ∀ a, same a (f a) = true)
    (bound : Option α) : equal.sameBound same bound (bound.map f) = true := by
  cases bound with
  | none => rfl
  | some a => exact h a

end

section
variable {α : Type} [LE α]

def bounds (r : Range α) : List α := r.lower.toList ++ r.upper.toList

/-- The range of the bounds that a function gives, if it keeps their order. -/
def map (f : α → α) (mono : ∀ a b, a ≤ b → f a ≤ f b) (r : Range α) : Range α where
  lower := r.lower.map f
  upper := r.upper.map f
  bounded := by simpa using r.bounded
  ordered := by
    simp only [Option.mem_def, Option.map_eq_some_iff]
    rintro _ ⟨l, hl, rfl⟩ _ ⟨u, hu, rfl⟩
    exact mono l u (r.ordered l hl u hu)

theorem equal_map {same : α → α → Bool} {f : α → α} {mono : ∀ a b, a ≤ b → f a ≤ f b}
    (h : ∀ a, same a (f a) = true) (r : Range α) : r.equal same (r.map f mono) = true := by
  simp only [equal, map, sameBound_map h, Bool.and_self]

theorem equal_self {same : α → α → Bool} (h : ∀ a, same a a = true) (r : Range α) :
    r.equal same r = true := by
  have bound (b : Option α) : equal.sameBound same b b = true := by
    simpa using sameBound_map h b
  simp only [equal, bound, Bool.and_self]

/-- How much longer the text of a range is than that of the range it is mapped to. -/
theorem length_text_map {write : α → List Char} {longer : α → Bool} {f : α → α}
    {mono : ∀ a b, a ≤ b → f a ≤ f b}
    (h : ∀ a, (write a).length = (write (f a)).length + (longer a).toNat) (r : Range α) :
    (r.text write).length = ((r.map f mono).text write).length + r.bounds.countP longer := by
  have bound (b : Option α) : (b.elim [] write).length =
      ((b.map f).elim [] write).length + b.toList.countP longer := by
    cases b with
    | none => rfl
    | some a => simp [h a, List.countP_cons, Bool.toNat, Bool.cond_eq_ite]
  simp only [text, map, bounds, List.length_cons, List.length_append, List.countP_append]
  rw [bound r.lower, bound r.upper]
  omega

theorem text_map {write : α → List Char} {f : α → α} {mono : ∀ a b, a ≤ b → f a ≤ f b}
    {r : Range α} (h : ∀ a ∈ r.bounds, write (f a) = write a) :
    (r.map f mono).text write = r.text write := by
  have bound (b : Option α) (hb : ∀ a ∈ b.toList, write (f a) = write a) :
      (b.map f).elim [] write = b.elim [] write := by
    cases b with
    | none => rfl
    | some a => exact hb a List.mem_cons_self
  have lower := bound r.lower fun a ha => h a (List.mem_append_left _ ha)
  have upper := bound r.upper fun a ha => h a (List.mem_append_right _ ha)
  simp only [text, map, lower, upper]

end
end Range

namespace Literal

/-- A literal is a single value, or made of other literals. -/
@[elab_as_elim]
theorem induct {motive : Literal → Prop} (single : ∀ l, l.kind ≠ .multiple → motive l)
    (multiple : ∀ first second rest, motive first → motive second →
      (∀ l ∈ rest, motive l) → motive (.multiple first second rest)) (l : Literal) : motive l := by
  cases l with
  | multiple first second rest =>
    exact multiple first second rest (induct single multiple first)
      (induct single multiple second) fun l _ => induct single multiple l
  | _ => exact single _ (by simp [kind])
termination_by l

mutual

/-- Whether all zoned date-times of a literal show years of four digits. -/
def readable : Literal → Bool
  | .zonedDateTime value => value.readable
  | .dateTimeRange range => range.bounds.all ZonedDateTime.readable
  | .multiple first second rest => readable first && readable second && readableAll rest
  | _ => true

def readableAll : List Literal → Bool
  | [] => true
  | first :: rest => readable first && readableAll rest

end

mutual

/-- The literal that the text of a literal says. -/
def normal : Literal → Literal
  | .decimal value => .decimal value.normal
  | .zonedDateTime value => .zonedDateTime value.normal
  | .decimalRange range =>
    .decimalRange (range.map Decimal.normal fun a b => (Decimal.normal_le_normal a b).mpr)
  | .dateTimeRange range => .dateTimeRange (range.map ZonedDateTime.normal fun _ _ => id)
  | .multiple first second rest => .multiple (normal first) (normal second) (normalAll rest)
  | other => other

def normalAll : List Literal → List Literal
  | [] => []
  | first :: rest => normal first :: normalAll rest

end

mutual

/-- The number of negative zeros among the decimals of a literal. -/
def negativeZeros : Literal → Nat
  | .decimal value => value.isNegativeZero.toNat
  | .decimalRange range => range.bounds.countP Decimal.isNegativeZero
  | .multiple first second rest =>
    negativeZeros first + negativeZeros second + negativeZerosAll rest
  | _ => 0

def negativeZerosAll : List Literal → Nat
  | [] => 0
  | first :: rest => negativeZeros first + negativeZerosAll rest

end

theorem readableAll_eq (ls : List Literal) : readableAll ls = ls.all readable := by
  induction ls with
  | nil => rfl
  | cons l ls ih => simp [readableAll, ih]

theorem normalAll_eq (ls : List Literal) : normalAll ls = ls.map normal := by
  induction ls with
  | nil => rfl
  | cons l ls ih => simp [normalAll, ih]

theorem negativeZerosAll_eq (ls : List Literal) :
    negativeZerosAll ls = (ls.map negativeZeros).sum := by
  induction ls with
  | nil => rfl
  | cons l ls ih => simp [negativeZerosAll, ih]

theorem restText_eq (ls : List Literal) : restText ls = ls.flatMap (',' :: text ·) := by
  induction ls with
  | nil => rfl
  | cons l ls ih => simp [restText, ih]

@[simp] theorem kind_normal (l : Literal) : l.normal.kind = l.kind := by
  cases l <;> rfl

theorem equalAll_iff {ls ls' : List Literal} :
    equalAll ls ls' = true ↔ List.Forall₂ (fun a b => a.equal b = true) ls ls' := by
  induction ls generalizing ls' with
  | nil => cases ls' <;> simp [equalAll]
  | cons l ls ih => cases ls' <;> simp [equalAll, ih]

theorem equalAll_map {f : Literal → Literal} {ls : List Literal}
    (h : ∀ l ∈ ls, l.equal (f l) = true) : equalAll ls (ls.map f) = true := by
  rw [equalAll_iff, List.forall₂_map_right_iff, List.forall₂_same]
  exact h

/-- **A literal is what its text says**, up to the forms of its numbers and instants. -/
theorem equal_normal (l : Literal) : l.equal l.normal = true := by
  induction l using induct with
  | single l h =>
    cases l with
    | decimal value => exact value.equal_normal
    | zonedDateTime value => exact value.sameInstant_normal
    | intRange range => exact range.equal_self fun a => beq_self_eq_true a
    | decimalRange range => exact range.equal_map Decimal.equal_normal
    | dateTimeRange range => exact range.equal_map ZonedDateTime.sameInstant_normal
    | multiple => exact absurd rfl h
    | _ => simp [normal, equal]
  | multiple first second rest hfirst hsecond hrest =>
    rw [normal, equal, hfirst, hsecond, normalAll_eq, equalAll_map hrest]
    rfl

/-- Each sign of a zero that gets lost makes the text one character shorter. -/
theorem length_queryText (d : Decimal) :
    d.queryText.length = d.normal.queryText.length + d.isNegativeZero.toNat := by
  rw [d.queryText_normal]
  cases d.isNegativeZero <;> rfl

theorem length_restText {ls : List Literal}
    (h : ∀ l ∈ ls, l.text.length = l.normal.text.length + l.negativeZeros) :
    (restText ls).length = (restText (normalAll ls)).length + negativeZerosAll ls := by
  induction ls with
  | nil => rfl
  | cons l ls ih =>
    have rest := ih fun l hl => h l (List.mem_cons_of_mem _ hl)
    simp only [restText, normalAll, negativeZerosAll, List.length_cons, List.length_append, rest,
      h l List.mem_cons_self]
    omega

theorem length_text (l : Literal) : l.text.length = l.normal.text.length + l.negativeZeros := by
  induction l using induct with
  | single l h =>
    cases l with
    | decimal value => exact length_queryText value
    | zonedDateTime value => exact congrArg List.length value.queryText_normal.symm
    | decimalRange range => exact range.length_text_map length_queryText
    | dateTimeRange range =>
      exact congrArg List.length (range.text_map fun a _ => a.queryText_normal).symm
    | multiple => exact absurd rfl h
    | _ => rfl
  | multiple first second rest hfirst hsecond hrest =>
    simp only [text, normal, negativeZeros, List.length_cons, List.length_append, hfirst, hsecond,
      length_restText hrest]
    omega

theorem restText_normalAll {ls : List Literal} (h : ∀ l ∈ ls, l.normal.text = l.text) :
    restText (normalAll ls) = restText ls := by
  induction ls with
  | nil => rfl
  | cons l ls ih =>
    rw [normalAll, restText, restText, h l List.mem_cons_self,
      ih fun l hl => h l (List.mem_cons_of_mem _ hl)]

theorem text_normal {l : Literal} (h : l.negativeZeros = 0) : l.normal.text = l.text := by
  have same {d : Decimal} (hd : d.isNegativeZero = false) : d.normal.queryText = d.queryText := by
    rw [d.queryText_normal, hd, if_neg Bool.false_ne_true]
  induction l using induct with
  | single l single =>
    cases l with
    | decimal value => exact same (Bool.toNat_eq_zero.mp h)
    | zonedDateTime value => exact value.queryText_normal
    | decimalRange range =>
      apply range.text_map
      intro a ha
      apply same
      simpa using List.countP_eq_zero.mp h a ha
    | dateTimeRange range => exact range.text_map fun a _ => a.queryText_normal
    | multiple => exact absurd rfl single
    | _ => rfl
  | multiple first second rest hfirst hsecond hrest =>
    simp only [negativeZeros, Nat.add_eq_zero_iff] at h
    have each : ∀ l ∈ rest, l.normal.text = l.text := by
      intro l hl
      refine hrest l hl ?_
      rw [negativeZerosAll_eq, List.sum_eq_zero_iff_forall_eq_nat] at h
      exact h.2 _ (List.mem_map_of_mem hl)
    rw [normal, text, text, hfirst h.1.1, hsecond h.1.2, restText_normalAll each]

/-- The text stays the same exactly if no sign of a zero gets lost. -/
theorem text_normal_iff (l : Literal) : l.normal.text = l.text ↔ l.negativeZeros = 0 :=
  eq_iff_nothing_extra l.length_text text_normal

end Literal
end CatalogQuery
