import CatalogQuery.Proofs.Constraint.Equality
import CatalogQuery.Proofs.Query.Normal
import CatalogQuery.Query.Digest

namespace CatalogQuery

variable {c : Category}

/-! ### The words of a digest -/

namespace Decimal

theorem dropZeros_mul_pow (coefficient scale places : Nat) :
    dropZeros (coefficient * 10 ^ places) (scale + places) = dropZeros coefficient scale := by
  induction places with
  | zero => simp
  | succ places ih =>
    rw [← Nat.add_assoc, dropZeros, Nat.pow_succ, ← Nat.mul_assoc, if_pos (Nat.mul_mod_left ..),
      Nat.mul_div_cancel _ (by decide), ih]

/-- The same number has the same digits without the zeros at its end. -/
theorem dropZeros_congr {n n' scale scale' : Nat} (h : n * 10 ^ scale' = n' * 10 ^ scale) :
    dropZeros n scale = dropZeros n' scale' := by
  -- The decimal with more places has that many zeros more at its end.
  wlog le : scale ≤ scale' generalizing n n' scale scale'
  · exact (this h.symm (Nat.le_of_not_le le)).symm
  obtain ⟨places, rfl⟩ := Nat.exists_eq_add_of_le le
  have more : n' = n * 10 ^ places := by
    apply Nat.eq_of_mul_eq_mul_right (Nat.pow_pos (n := scale) (by decide : 0 < 10))
    rw [← h, Nat.pow_add]
    ring
  rw [more, dropZeros_mul_pow]

theorem natAbs_mantissa (d : Decimal) : d.mantissa.natAbs = d.coefficient := by
  unfold mantissa
  split <;> simp

theorem mantissa_nonneg_iff (d : Decimal) :
    0 ≤ d.mantissa ↔ d.negative = false ∨ d.coefficient = 0 := by
  unfold mantissa
  cases d.negative <;> simp

/-- Decimals of one number have the same words, whatever their places and whatever the sign of
a zero. -/
theorem words_of_value {a b : Decimal} (h : a.value = b.value) : a.words = b.words := by
  have units := (equal_iff a b).mp ((equal_iff_value a b).mpr h)
  rw [inUnits, inUnits, Nat.pow_eq, Nat.pow_eq] at units
  have size : a.coefficient * 10 ^ b.scale = b.coefficient * 10 ^ a.scale := by
    simpa [Int.natAbs_mul, natAbs_mantissa] using congrArg Int.natAbs units
  have zero : a.coefficient = 0 ↔ b.coefficient = 0 := by
    constructor <;> intro none <;> simpa [none] using size
  by_cases none : a.coefficient = 0
  · simp [words, none, zero.mp none]
  · have some : b.coefficient ≠ 0 := mt zero.mpr none
    have sign : 0 ≤ a.mantissa ↔ 0 ≤ b.mantissa := by
      rw [← mul_nonneg_iff_of_pos_right (by positivity : (0 : Int) < ((10 ^ b.scale : Nat) : Int)),
        units, mul_nonneg_iff_of_pos_right (by positivity)]
    have negative : a.negative = b.negative := by
      simpa [mantissa_nonneg_iff, none, some] using sign
    simp [words, none, some, negative, dropZeros_congr size]

end Decimal

namespace Word

variable {α β : Type} {words : α → List Word} {f : α → β}

/-- Values that may be missing have the same words if they mean the same. -/
theorem ofOption_congr (h : ∀ a b, f a = f b → words a = words b) {a b : Option α}
    (same : a.map f = b.map f) : ofOption words a = ofOption words b := by
  cases a with
  | none => cases b <;> simp_all [ofOption]
  | some a =>
    cases b with
    | none => simp at same
    | some b => rw [ofOption, ofOption, h a b (by simpa using same)]

theorem flatMap_congr {as bs : List α} (h : ∀ a ∈ as, ∀ b, f a = f b → words a = words b)
    (same : as.map f = bs.map f) : as.flatMap words = bs.flatMap words := by
  induction as generalizing bs with
  | nil => simp_all
  | cons a as ih =>
    obtain ⟨first, others⟩ := List.forall_mem_cons.mp h
    cases bs with
    | nil => simp at same
    | cons b bs =>
      obtain ⟨head, tail⟩ := List.cons.inj same
      rw [List.flatMap_cons, List.flatMap_cons, first b head, ih others tail]

end Word

theorem Range.words_congr {α β : Type} [LE α] {own : α → List Word} {f : α → β}
    (h : ∀ a b, f a = f b → own a = own b) {r r' : Range α}
    (lower : r.lower.map f = r'.lower.map f) (upper : r.upper.map f = r'.upper.map f) :
    r.words own = r'.words own := by
  rw [words, words, Word.ofOption_congr h lower, Word.ofOption_congr h upper]

theorem ZonedDateTime.words_of_utc {a b : ZonedDateTime} (h : a.utc = b.utc) :
    a.words = b.words :=
  congrArg DateTime.words h

namespace Literal

theorem allWords_eq (ls : List Literal) : allWords ls = ls.flatMap words := by
  induction ls with
  | nil => rfl
  | cons l ls ih => rw [allWords, ih, List.flatMap_cons]

theorem words_of_single {l l' : Literal} (single : l.kind ≠ .multiple)
    (h : l.meaning = l'.meaning) : l.words = l'.words := by
  cases l with
  | multiple => exact absurd rfl single
  | decimal value =>
    cases l' with
    | decimal value' =>
      rw [meaning, meaning, Meaning.decimal.injEq] at h
      rw [words, words, Decimal.words_of_value h]
    | _ => simp [meaning] at h
  | zonedDateTime value =>
    cases l' with
    | zonedDateTime value' =>
      rw [meaning, meaning, Meaning.instant.injEq] at h
      rw [words, words, ZonedDateTime.words_of_utc h]
    | _ => simp [meaning] at h
  | intRange range => cases l' <;> simp_all [meaning, words, Range.words]
  | decimalRange range =>
    cases l' with
    | decimalRange range' =>
      rw [meaning, meaning, Meaning.decimalRange.injEq] at h
      rw [words, words, Range.words_congr (fun _ _ => Decimal.words_of_value) h.1 h.2]
    | _ => simp [meaning] at h
  | dateTimeRange range =>
    cases l' with
    | dateTimeRange range' =>
      rw [meaning, meaning, Meaning.instantRange.injEq] at h
      rw [words, words, Range.words_congr (fun _ _ => ZonedDateTime.words_of_utc) h.1 h.2]
    | _ => simp [meaning] at h
  | _ => cases l' <;> simp_all [meaning]

/-- Literals that mean the same have the same words. -/
theorem words_of_meaning {l l' : Literal} (h : l.meaning = l'.meaning) : l.words = l'.words := by
  induction l using induct generalizing l' with
  | single l single => exact words_of_single single h
  | multiple first second rest ihFirst ihSecond ihRest =>
    cases l' with
    | multiple first' second' rest' =>
      simp only [meaning, meanings_eq, Meaning.multiple.injEq, List.cons.injEq] at h
      obtain ⟨hfirst, hsecond, hrest⟩ := h
      have length : rest.length = rest'.length := by simpa using congrArg List.length hrest
      simp only [words, allWords_eq, ihFirst hfirst, ihSecond hsecond, length,
        Word.flatMap_congr (fun l hl _ => ihRest l hl) hrest]
    | _ => simp [meaning] at h

end Literal

namespace Constraint

theorem allWords_eq (trees : List (Constraint c)) : allWords trees = trees.flatMap words := by
  induction trees with
  | nil => rfl
  | cons tree trees ih => rw [allWords, ih, List.flatMap_cons]

/-- Constraints that mean the same have the same words. -/
theorem words_of_meaning {a b : Constraint c} (h : a.meaning = b.meaning) : a.words = b.words := by
  induction a using induct generalizing b with
  | node kind arguments children ih =>
    cases b with
    | node kind' arguments' children' =>
      simp only [meaning, meanings_eq, Meaning.node.injEq] at h
      obtain ⟨rfl, literals, below⟩ := h
      have number : arguments.length = arguments'.length := by
        simpa using congrArg List.length literals
      have length : children.length = children'.length := by
        simpa using congrArg List.length below
      simp only [words, Word.ofList, allWords_eq, number, length,
        Word.flatMap_congr (fun _ _ _ => Literal.words_of_meaning) literals,
        Word.flatMap_congr (fun child hc _ => ih child hc) below]

end Constraint

/-! ### Queries -/

namespace Query

def meaning (q : Query) : List ((c : Category) × Constraint.Meaning c) :=
  q.parts.map AnyConstraint.meaning

/-- Each category has a place of its own among the parts of a query. -/
theorem equal_iff_meaning (a b : Query) : a.equal b = true ↔ a.meaning = b.meaning := by
  obtain ⟨head, filterBy, orderBy, require⟩ := a
  obtain ⟨head', filterBy', orderBy', require'⟩ := b
  simp only [equal, Bool.and_eq_true, Constraint.equal_iff_meaning, Constraint.equal?_iff_meaning]
  -- Parts of different categories mean different things, so no part can stand for another.
  cases filterBy <;> cases filterBy' <;> cases orderBy <;> cases orderBy' <;> cases require <;>
    cases require' <;>
    simp [meaning, parts, AnyConstraint.meaning, Constraint.toAny, and_assoc]

/-- **Queries are equal exactly if their parts are**, one by one. -/
theorem equal_iff_parts (a b : Query) : a.equal b = true ↔
    List.Forall₂ (fun x y => x.equal y = true) a.parts b.parts := by
  rw [equal_iff_meaning, forall₂_iff_map_eq fun x _ => x.equal_iff_meaning]
  rfl

theorem equivalence_equal : Equivalence fun a b : Query => a.equal b = true :=
  equivalence_of_iff equal_iff_meaning

/-- Equal queries have the same words. -/
theorem words_of_equal {a b : Query} (h : a.equal b = true) : a.words = b.words := by
  simp only [equal, Bool.and_eq_true, Constraint.equal_iff_meaning,
    Constraint.equal?_iff_meaning] at h
  obtain ⟨⟨⟨head, filterBy⟩, orderBy⟩, require⟩ := h
  have part {c : Category} {x y : Option (Constraint c)}
      (same : x.map Constraint.meaning = y.map Constraint.meaning) :
      Word.ofOption Constraint.words x = Word.ofOption Constraint.words y :=
    Word.ofOption_congr (fun _ _ => Constraint.words_of_meaning) same
  rw [words, words, Constraint.words_of_meaning head, part filterBy, part orderBy, part require]

end Query

namespace HeldQuery

variable {digest : List Word → UInt64}

/-- **No digest changes what is equal**: where two are known and differ, so do the queries. -/
theorem equal_eq {sameObject : Bool} {a b : HeldQuery digest} (own : sameObject = true → a = b) :
    a.equal sameObject b = a.query.equal b.query := by
  cases sameObject with
  | true =>
    obtain rfl := own rfl
    exact (Query.equivalence_equal.refl a.query).symm
  | false =>
    rw [equal, Bool.false_or]
    split
    · rename_i x y known known'
      by_cases same : a.query.equal b.query = true
      · have digests : x = y := by
          rw [a.faithful x known, b.faithful y known', Query.words_of_equal same]
        simp [digests]
      · simp [same]
    · rfl

end HeldQuery
end CatalogQuery
