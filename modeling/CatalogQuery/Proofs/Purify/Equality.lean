import CatalogQuery.Proofs.Purify.Steps
import CatalogQuery.Proofs.Query.Equality

/-!
# Purification respects equality

Equal trees are not one tree: their literals may be written in other forms. Purification
without hooks looks at nothing of a literal, and at nodes as such only to tell whether they
stayed. So it does the same to equal trees.
-/

namespace CatalogQuery

variable {c : Category}

namespace Constraint

/-- Equal constraints are of use alike. -/
theorem isApplicable_congr {a b : Constraint c} (h : a.equal b = true) :
    a.isApplicable = b.isApplicable := by
  obtain ⟨kind, literals, below⟩ := equal_iff.mp h
  have empty : a.children.isEmpty = b.children.isEmpty := by
    rw [Bool.eq_iff_iff, List.isEmpty_iff_length_eq_zero, List.isEmpty_iff_length_eq_zero,
      below.length_eq]
  rw [isApplicable, isApplicable, kind, literals.length_eq, empty]

theorem withChildren_congr {a b : Constraint c} (h : a.equal b = true)
    {children children' : List (Constraint c)}
    (below : List.Forall₂ (fun x y => x.equal y = true) children children') :
    (a.withChildren children).equal (b.withChildren children') = true := by
  obtain ⟨kind, literals, -⟩ := equal_iff.mp h
  cases a
  cases b
  exact equal_node_iff.mpr ⟨kind, literals, below⟩

/-- Equal constraints give way to equal children. -/
theorem soleChild?_congr {a b : Constraint c} (h : a.equal b = true) :
    equal? a.soleChild? b.soleChild? = true := by
  cases a with
  | node kind arguments children =>
    cases b with
    | node kind' arguments' children' =>
      obtain ⟨rfl, literals, below⟩ := equal_node_iff.mp h
      cases literals with
      | cons _ _ => rfl
      | nil =>
        cases below with
        | nil => rfl
        | cons first others =>
          cases others with
          | cons _ _ => rfl
          | nil =>
            cases collapsible : kind.isCollapsible with
            | true => simpa [soleChild?, collapsible, equal?] using first
            | false => simp [soleChild?, collapsible, equal?]

theorem forall₂_toList {a b : Option (Constraint c)} (h : equal? a b = true) :
    List.Forall₂ (fun x y => x.equal y = true) a.toList b.toList := by
  cases a <;> cases b <;> simp_all [equal?]

end Constraint

open Constraint (equal?)

namespace Outcome

/-- Outcomes for two nodes are alike: nothing is left of either, or both stayed, or nodes from
inside the trees took their places, or nodes that were built anew did, and these are equal. -/
inductive Alike : Outcome c → Outcome c → Prop
  | vanished : Alike .vanished .vanished
  | unchanged : Alike .unchanged .unchanged
  | inner {a b : Constraint c} : a.equal b = true → Alike (.inner a) (.inner b)
  | rebuilt {a b : Constraint c} : a.equal b = true → Alike (.rebuilt a) (.rebuilt b)

variable {o o' : Outcome c} {os os' : List (Outcome c)}

theorem Alike.isUnchanged (h : Alike o o') : o.isUnchanged = o'.isUnchanged := by
  cases h <;> rfl

theorem Alike.result (h : Alike o o') {a b : Constraint c} (same : a.equal b = true) :
    equal? (o.result a) (o'.result b) = true := by
  cases h with
  | vanished => rfl
  | unchanged => exact same
  | inner own => exact own
  | rebuilt own => exact own

theorem all_isUnchanged_congr (h : List.Forall₂ Alike os os') :
    os.all Outcome.isUnchanged = os'.all Outcome.isUnchanged := by
  induction h with
  | nil => rfl
  | cons first _ ih => rw [List.all_cons, List.all_cons, first.isUnchanged, ih]

theorem results_congr {as bs : List (Constraint c)}
    (same : List.Forall₂ (fun a b => a.equal b = true) as bs) (h : List.Forall₂ Alike os os') :
    List.Forall₂ (fun a b => a.equal b = true) (results as os) (results bs os') := by
  induction same generalizing os os' with
  | nil => cases h <;> exact .nil
  | cons first _ ih =>
    cases h with
    | nil => exact .nil
    | cons alike others =>
      exact List.rel_append (Constraint.forall₂_toList (alike.result first)) (ih others)

end Outcome

namespace Purifier

open Outcome (Alike)

/-- Equal nodes with purified children are equal, and either both are built anew or none. -/
theorem renew_alike {a b : Constraint c} (same : a.equal b = true) {os os' : List (Outcome c)}
    (h : List.Forall₂ Alike os os') :
    (renew a os).1.equal (renew b os').1 = true ∧ (renew a os).2 = (renew b os').2 := by
  -- Nodes count as changed by their outcomes alone, so both are built anew or neither is.
  obtain ⟨kind, -, below⟩ := Constraint.equal_iff.mp same
  have container : a.isContainer = b.isContainer := congrArg Kind.isContainer kind
  have left := Outcome.results_congr below h
  rw [renew, renew, container, Outcome.all_isUnchanged_congr h]
  split
  · exact ⟨Constraint.withChildren_congr same left, rfl⟩
  · exact ⟨same, rfl⟩

theorem settle_alike (p : Purifier c) {a b : Constraint c} (same : a.equal b = true)
    (isNew : Bool) : Alike (p.settle a isNew) (p.settle b isNew) := by
  rw [settle, settle, Constraint.isApplicable_congr same]
  split
  · exact .vanished
  · -- Whether the nodes give way depends on the kind and on how much stands below them.
    have inside : equal? (if p.collapse then a.soleChild? else none)
        (if p.collapse then b.soleChild? else none) = true := by
      cases p.collapse with
      | true => exact Constraint.soleChild?_congr same
      | false => rfl
    revert inside
    generalize (if p.collapse then a.soleChild? else none) = x
    generalize (if p.collapse then b.soleChild? else none) = y
    intro inside
    cases x with
    | none =>
      cases y with
      | none =>
        cases isNew with
        | true => exact .rebuilt same
        | false => exact .unchanged
      | some _ => cases inside
    | some child =>
      cases y with
      | none => cases inside
      | some child' =>
        cases isNew with
        | true => exact .rebuilt inside
        | false => exact .inner inside

/-- **Purification without a hook does the same to equal trees.** -/
theorem outcome_alike (collapse : Bool) {a b : Constraint c} (same : a.equal b = true) :
    Alike (outcome ⟨collapse, none⟩ a) (outcome ⟨collapse, none⟩ b) := by
  induction a using Constraint.induct generalizing b with
  | node kind arguments children ih =>
    cases b with
    | node kind' arguments' children' =>
      obtain ⟨rfl, literals, below⟩ := Constraint.equal_node_iff.mp same
      have outcomes : List.Forall₂ Alike (outcomes ⟨collapse, none⟩ children)
          (outcomes ⟨collapse, none⟩ children') := by
        rw [outcomes_eq, outcomes_eq, List.forall₂_map_left_iff, List.forall₂_map_right_iff]
        have each := (List.forall₂_and_left children children').mpr ⟨ih, below⟩
        exact each.imp fun _ _ ⟨alike, own⟩ => alike own
      obtain ⟨node, isNew⟩ := renew_alike same outcomes
      simp only [outcome, conclude, ask, isNew]
      exact settle_alike _ node _

end Purifier

namespace QueryPurifier

/-- Trees that are missing or equal are kept alike, and what is left of them is equal. -/
theorem keeps_congr (collapse : Bool) {a b : Option (Constraint c)} (same : equal? a b = true) :
    (plain collapse).keeps a = (plain collapse).keeps b ∧
      equal? (a.bind ((plain collapse).on c).purify) (b.bind ((plain collapse).on c).purify)
        = true := by
  cases a with
  | none =>
    cases b with
    | none => exact ⟨rfl, rfl⟩
    | some _ => cases same
  | some a =>
    cases b with
    | none => cases same
    | some b =>
      have alike := Purifier.outcome_alike collapse same
      simp only [keeps, on_plain, Option.all_some, Option.bind_some]
      exact ⟨alike.isUnchanged, alike.result same⟩

/-- **Equal queries both stay, or both change to equal ones.** -/
theorem purify?_alike (collapse : Bool) {a b : Query} (same : a.equal b = true) :
    (plain collapse).purify? a = none ∧ (plain collapse).purify? b = none ∨
      ∃ x y, (plain collapse).purify? a = some x ∧ (plain collapse).purify? b = some y ∧
        x.equal y = true := by
  simp only [Query.equal, Bool.and_eq_true] at same
  obtain ⟨⟨⟨head, filterBy⟩, orderBy⟩, require⟩ := same
  obtain ⟨keepsFilter, leftFilter⟩ := keeps_congr collapse filterBy
  obtain ⟨keepsOrder, leftOrder⟩ := keeps_congr collapse orderBy
  obtain ⟨keepsRequire, leftRequire⟩ := keeps_congr collapse require
  rw [purify?, purify?, keepsFilter, keepsOrder, keepsRequire]
  split
  · exact .inl ⟨rfl, rfl⟩
  · refine .inr ⟨_, _, rfl, rfl, ?_⟩
    simp only [Query.equal, head, leftFilter, leftOrder, leftRequire, Bool.and_self]

end QueryPurifier

/-- **Equality is that of meanings, and purification respects it.** Literals are equal exactly if
they stand for the same: decimals for a number, zoned date-times for an instant, also as bounds
and as members at any depth; an int never equals a decimal. Constraints are equal exactly if
their kinds, their literals and their children are, and so on below, and queries exactly if
their parts are; no digest that is known of a query changes that. Each of these equalities is an
equivalence. Purification without hooks makes equal trees both vanish, keeps both, or gives
equal trees of the same origin; equal queries both stay, or both change to equal ones. -/
theorem equality_of_meanings :
    (Equivalence (fun l l' : Literal => l.equal l' = true) ∧
      (∀ l l' : Literal, l.equal l' = true ↔ l.meaning = l'.meaning) ∧
      ∀ (n : Int64) (d : Decimal), Literal.equal (.int n) (.decimal d) = false ∧
        Literal.equal (.decimal d) (.int n) = false) ∧
    (∀ c : Category, Equivalence (fun a b : Constraint c => a.equal b = true) ∧
      (∀ a b : Constraint c, a.equal b = true ↔ a.kind = b.kind ∧
        List.Forall₂ (fun l l' => l.equal l' = true) a.arguments b.arguments ∧
        List.Forall₂ (fun x y => x.equal y = true) a.children b.children) ∧
      ∀ a b : Constraint c, a.equal b = true ↔ a.meaning = b.meaning) ∧
    (Equivalence (fun a b : AnyConstraint => a.equal b = true) ∧
      ∀ a b : AnyConstraint, a.equal b = true ↔ a.meaning = b.meaning) ∧
    (Equivalence (fun a b : Query => a.equal b = true) ∧
      (∀ a b : Query, a.equal b = true ↔
        List.Forall₂ (fun x y => x.equal y = true) a.parts b.parts) ∧
      ∀ (digest : List Word → UInt64) (sameObject : Bool) (a b : HeldQuery digest),
        (sameObject = true → a = b) → a.equal sameObject b = a.query.equal b.query) ∧
    (∀ (c : Category) (collapse : Bool) (a b : Constraint c), a.equal b = true →
      Outcome.Alike (Purifier.outcome ⟨collapse, none⟩ a) (Purifier.outcome ⟨collapse, none⟩ b) ∧
      equal? (Purifier.purify ⟨collapse, none⟩ a) (Purifier.purify ⟨collapse, none⟩ b) = true) ∧
    ∀ (collapse : Bool) (a b : Query), a.equal b = true →
      (QueryPurifier.plain collapse).purify? a = none ∧
        (QueryPurifier.plain collapse).purify? b = none ∨
      ∃ x y, (QueryPurifier.plain collapse).purify? a = some x ∧
        (QueryPurifier.plain collapse).purify? b = some y ∧ x.equal y = true := by
  refine ⟨⟨Literal.equivalence_equal, Literal.equal_iff_meaning, fun n d => ⟨rfl, rfl⟩⟩,
    fun c => ⟨Constraint.equivalence_equal, fun a b => Constraint.equal_iff,
      Constraint.equal_iff_meaning⟩,
    ⟨AnyConstraint.equivalence_equal, AnyConstraint.equal_iff_meaning⟩,
    ⟨Query.equivalence_equal, Query.equal_iff_parts, fun digest sameObject a b => ?_⟩,
    fun c collapse a b same => ?_, fun collapse a b same => ?_⟩
  · exact HeldQuery.equal_eq
  · have alike := Purifier.outcome_alike collapse same
    exact ⟨alike, alike.result same⟩
  · exact QueryPurifier.purify?_alike collapse same

/-- The query `query(entities('product'), filterBy(and(equals('price', ...))))`. -/
def pricedAt (price : Literal) : Query where
  head := .node .entities [.string "product"] []
  filterBy := some (.node .filterBy [] [.node .and [] [.node .equals [.string "price", price] []]])
  orderBy := none
  require := none

/-- `10.00`, with two places. -/
def tenInHundredths : Decimal := ⟨false, 1000, 2, by decide, by decide⟩

theorem pricedAt_ten_alike :
    (∃ x y, (QueryPurifier.plain true).purify? (pricedAt (.decimal (.ofInt64 10))) = some x ∧
      (QueryPurifier.plain true).purify? (pricedAt (.decimal tenInHundredths)) = some y ∧
      x.equal y = true) ∧
    (HeldQuery.fresh (fun words => .ofNat words.length)
      (pricedAt (.decimal (.ofInt64 10)))).digested.equal false
        (HeldQuery.fresh _ (pricedAt (.decimal tenInHundredths))).digested = true ∧
    Literal.equal (.int 10) (.decimal tenInHundredths) = false := by
  obtain ⟨⟨-, -, apart⟩, -, -, ⟨-, -, held⟩, -, queries⟩ := equality_of_meanings
  have same : (pricedAt (.decimal (.ofInt64 10))).equal (pricedAt (.decimal tenInHundredths)) =
      true := by decide
  refine ⟨(queries true _ _ same).resolve_left ?_, (held _ false _ _ nofun).trans same,
    (apart 10 tenInHundredths).1⟩
  rintro ⟨stays, -⟩
  cases stays

end CatalogQuery
