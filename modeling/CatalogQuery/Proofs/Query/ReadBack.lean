import CatalogQuery.Proofs.Constraint.Stored
import CatalogQuery.Proofs.Query.Stored

/-!
# Reading what is stored back

Literals, constraints and queries are all read back from their stored forms as far as the
offsets of their zoned date-times go: a stored offset is rounded to minutes, and then the
instant is another one, or there is none.
-/

namespace CatalogQuery

open Json (accepted mapCause wanted keepIf)

namespace AnyConstraint

def zoned (any : AnyConstraint) : List ZonedDateTime := any.constraint.zoned

/-- What is read of a stored constraint of any category. -/
theorem ofJson_toJson_eq (any : AnyConstraint) :
    ofJson any.toJson = (Constraint.ofJson any.constraint.toJson).map (⟨any.category, ·⟩) := by
  have tag : any.toJson.tag? "category" = some any.category.name := rfl
  have field : any.toJson.field? 1 "constraint" = some any.constraint.toJson := rfl
  have record : any.toJson.isRecord 2 = true := rfl
  rw [ofJson, categoryOfJson?, tag, Option.bind_some, Category.ofName?_name, field, record]
  rfl

/-- A stored constraint that fits and has whole offsets is read back, but for the signs of
zeros. -/
theorem ofJson_toJson {any : AnyConstraint} (fits : any.fits = true)
    (years : ∀ z ∈ any.zoned, z.HasPlainYear) (whole : ∀ z ∈ any.zoned, z.HasWholeOffset) :
    ofJson any.toJson = .ok any.constraint.stored.toAny := by
  rw [ofJson_toJson_eq, Constraint.ofJson_toJson fits years whole]
  rfl

theorem equal_stored (any : AnyConstraint) : any.equal any.constraint.stored.toAny = true := by
  have own : any.constraint.stored.toAny.as? any.category = some any.constraint.stored :=
    as?_self _
  rw [equal, own]
  exact any.constraint.equal_stored

/-- A constraint that reads back as an equal one has whole offsets. -/
theorem whole_of_readsBack {any any' : AnyConstraint} (years : ∀ z ∈ any.zoned, z.HasPlainYear)
    (h : ofJson any.toJson = .ok any') (same : any.equal any' = true) :
    ∀ z ∈ any.zoned, z.HasWholeOffset := by
  rw [ofJson_toJson_eq] at h
  obtain ⟨tree, htree, rfl⟩ := Outcome.map_eq_ok.mp h
  rw [equal, as?_self] at same
  exact Constraint.whole_of_readsBack years htree same

end AnyConstraint

namespace Query

open Constraint (toAny)

def zoned (q : Query) : List ZonedDateTime := q.parts.flatMap AnyConstraint.zoned

/-- The query that the stored form of a query with whole offsets says. -/
def stored (q : Query) : Query where
  head := q.head.stored
  filterBy := q.filterBy.map Constraint.stored
  orderBy := q.orderBy.map Constraint.stored
  require := q.require.map Constraint.stored

theorem equal?_stored {c : Category} (tree : Option (Constraint c)) :
    Constraint.equal? tree (tree.map Constraint.stored) = true := by
  cases tree with
  | none => rfl
  | some tree => exact tree.equal_stored

theorem equal_stored (q : Query) : q.equal q.stored = true := by
  simp only [equal, stored, Constraint.equal_stored, equal?_stored, Bool.and_self]

theorem isPart_stored (any : AnyConstraint) : any.constraint.stored.toAny.isPart = any.isPart := by
  obtain ⟨category, tree⟩ := any
  cases category <;> simp only [toAny, AnyConstraint.isPart, Constraint.kind_stored]

theorem rooted_stored (q : Query) : q.stored.rooted = q.rooted := by
  have part {c : Category} (tree : Option (Constraint c)) :
      ((tree.map Constraint.stored).map toAny).toList.all AnyConstraint.isPart =
        (tree.map toAny).toList.all AnyConstraint.isPart := by
    cases tree with
    | none => rfl
    | some own =>
      have same : own.stored.toAny.isPart = own.toAny.isPart := isPart_stored own.toAny
      simpa using same
  simp only [rooted_eq, stored, part]

/-! ### The parts of a query -/

theorem head_toJson (q : Query) : q.toJson.field? 0 "head" = some q.head.toJson := by
  obtain ⟨head, filterBy, orderBy, require⟩ := q
  cases filterBy <;> rfl

theorem filterBy_toJson (q : Query) :
    q.toJson.field? 1 "filter_by" = q.filterBy.map Constraint.toJson := by
  obtain ⟨head, filterBy, orderBy, require⟩ := q
  cases filterBy <;> cases orderBy <;> cases require <;> rfl

theorem orderBy_toJson (q : Query) :
    q.toJson.field? 2 "order_by" = q.orderBy.map Constraint.toJson := by
  obtain ⟨head, filterBy, orderBy, require⟩ := q
  cases filterBy <;> cases orderBy <;> cases require <;> rfl

theorem require_toJson (q : Query) :
    q.toJson.field? 3 "require" = q.require.map Constraint.toJson := by
  obtain ⟨head, filterBy, orderBy, require⟩ := q
  cases filterBy <;> cases orderBy <;> cases require <;> rfl

theorem headOfJson_toJson (q : Query) : headOfJson q.toJson = Constraint.ofJson q.head.toJson := by
  rw [headOfJson, head_toJson]
  rfl

theorem treeOfJson_map {c : Category} (tree : Option (Constraint c)) :
    (treeOfJson (tree.map Constraint.toJson) : Json.Decoded QueryError (Option (Constraint c))) =
      tree.elim (.ok none) fun own => (Constraint.ofJson own.toJson).map some := by
  cases tree with
  | none => rfl
  | some own =>
    obtain ⟨kind, arguments, children⟩ := own
    rw [Option.map_some, Option.elim_some, Constraint.toJson]
    rfl

/-- A query is read if its parts are, in whatever order they are looked at. -/
theorem ofJson_of_parts {q q' : Query} (head : headOfJson q.toJson = .ok q'.head)
    (filterBy : treeOfJson (q.toJson.field? 1 "filter_by") = .ok q'.filterBy)
    (orderBy : treeOfJson (q.toJson.field? 2 "order_by") = .ok q'.orderBy)
    (require : treeOfJson (q.toJson.field? 3 "require") = .ok q'.require)
    (rooted : q'.rooted = true) : ofJson q.toJson = .ok q' := by
  have named : q.toJson.isPositional = false := rfl
  have created : create q'.head q'.filterBy q'.orderBy q'.require = .ok q' := by
    rw [← Outcome.toOption_eq_some, toOption_create, if_pos rooted]
  have present : (q.toJson.field? 0 "head").isSome = true := by
    rw [head_toJson]
    rfl
  unfold ofJson
  dsimp only
  rw [if_neg (by simp [named])]
  apply Outcome.bind_of_ok filterBy
  rw [if_pos present]
  apply Outcome.bind_of_ok head
  apply Outcome.bind_of_ok orderBy
  apply Outcome.bind_of_ok require
  apply Outcome.bind_of_ok head
  exact mapCause_eq_ok.mpr (accepted_eq_ok.mpr created)

/-! ### Whole offsets -/

theorem zoned_parts (q : Query) {P : ZonedDateTime → Prop} : (∀ z ∈ q.zoned, P z) ↔
    (∀ z ∈ q.head.zoned, P z) ∧ (∀ tree ∈ q.filterBy, ∀ z ∈ tree.zoned, P z) ∧
      (∀ tree ∈ q.orderBy, ∀ z ∈ tree.zoned, P z) ∧ ∀ tree ∈ q.require, ∀ z ∈ tree.zoned, P z := by
  have part {c : Category} (tree : Option (Constraint c)) :
      (∀ z ∈ ((tree.map toAny).toList).flatMap AnyConstraint.zoned, P z) ↔
        ∀ own ∈ tree, ∀ z ∈ own.zoned, P z := by
    cases tree with
    | none => simp
    | some own => simp [AnyConstraint.zoned, toAny]
  rw [zoned, parts, List.flatMap_cons, List.flatMap_append, List.flatMap_append,
    List.forall_mem_append, List.forall_mem_append, List.forall_mem_append, part, part, part,
    and_assoc]
  rfl

theorem fits_parts (q : Query) : q.fits = true ↔
    q.head.fits = true ∧ (∀ tree ∈ q.filterBy, tree.fits = true) ∧
      (∀ tree ∈ q.orderBy, tree.fits = true) ∧ ∀ tree ∈ q.require, tree.fits = true := by
  have part {c : Category} (tree : Option (Constraint c)) :
      ((tree.map toAny).toList.all AnyConstraint.fits) = true ↔
        ∀ own ∈ tree, own.fits = true := by
    cases tree with
    | none => simp
    | some own => simp [AnyConstraint.fits, toAny]
  rw [fits, parts, List.all_cons, List.all_append, List.all_append, Bool.and_eq_true,
    Bool.and_eq_true, Bool.and_eq_true, part, part, part, and_assoc]
  rfl

theorem treeOfJson_stored {c : Category} {tree : Option (Constraint c)}
    (fits : ∀ own ∈ tree, own.fits = true) (years : ∀ own ∈ tree, ∀ z ∈ own.zoned, z.HasPlainYear)
    (whole : ∀ own ∈ tree, ∀ z ∈ own.zoned, z.HasWholeOffset) :
    treeOfJson (tree.map Constraint.toJson) = .ok (tree.map Constraint.stored) := by
  rw [treeOfJson_map]
  cases tree with
  | none => rfl
  | some own =>
    rw [Option.elim_some, Constraint.ofJson_toJson (fits own rfl) (years own rfl) (whole own rfl)]
    rfl

/-- A stored query that fits, has the right roots and has whole offsets is read back, but for
the signs of zeros. -/
theorem ofJson_toJson {q : Query} (fits : q.fits = true) (rooted : q.rooted = true)
    (years : ∀ z ∈ q.zoned, z.HasPlainYear) (whole : ∀ z ∈ q.zoned, z.HasWholeOffset) :
    ofJson q.toJson = .ok q.stored := by
  obtain ⟨headFits, filterFits, orderFits, requireFits⟩ := q.fits_parts.mp fits
  obtain ⟨headYears, filterYears, orderYears, requireYears⟩ := q.zoned_parts.mp years
  obtain ⟨headWhole, filterWhole, orderWhole, requireWhole⟩ := q.zoned_parts.mp whole
  apply ofJson_of_parts
  · rw [headOfJson_toJson]
    exact Constraint.ofJson_toJson headFits headYears headWhole
  · rw [filterBy_toJson]
    exact treeOfJson_stored filterFits filterYears filterWhole
  · rw [orderBy_toJson]
    exact treeOfJson_stored orderFits orderYears orderWhole
  · rw [require_toJson]
    exact treeOfJson_stored requireFits requireYears requireWhole
  · rw [rooted_stored, rooted]

/-! ### Other offsets -/

theorem whole_of_treeOfJson {c : Category} {tree tree' : Option (Constraint c)}
    (years : ∀ own ∈ tree, ∀ z ∈ own.zoned, z.HasPlainYear)
    (h : treeOfJson (tree.map Constraint.toJson) = .ok tree')
    (same : Constraint.equal? tree tree' = true) :
    ∀ own ∈ tree, ∀ z ∈ own.zoned, z.HasWholeOffset := by
  rintro own rfl
  rw [treeOfJson_map] at h
  obtain ⟨own', read, rfl⟩ := Outcome.map_eq_ok.mp h
  exact Constraint.whole_of_readsBack (years own rfl) read same

/-- A query that reads back as an equal one has whole offsets. -/
theorem whole_of_readsBack {q q' : Query} (years : ∀ z ∈ q.zoned, z.HasPlainYear)
    (h : ofJson q.toJson = .ok q') (same : q.equal q' = true) :
    ∀ z ∈ q.zoned, z.HasWholeOffset := by
  obtain ⟨headYears, filterYears, orderYears, requireYears⟩ := q.zoned_parts.mp years
  obtain ⟨-, hhead, hfilter, horder, hrequire⟩ := ofJson_eq_ok h
  rw [headOfJson_toJson] at hhead
  rw [filterBy_toJson] at hfilter
  rw [orderBy_toJson] at horder
  rw [require_toJson] at hrequire
  simp only [equal, Bool.and_eq_true] at same
  obtain ⟨⟨⟨sameHead, sameFilter⟩, sameOrder⟩, sameRequire⟩ := same
  exact q.zoned_parts.mpr ⟨Constraint.whole_of_readsBack headYears hhead sameHead,
    whole_of_treeOfJson filterYears hfilter sameFilter,
    whole_of_treeOfJson orderYears horder sameOrder,
    whole_of_treeOfJson requireYears hrequire sameRequire⟩

end Query

/-- All nodes of a constraint have passed the checks of the constructor. -/
def Constraint.IsChecked {c : Category} (tree : Constraint c) : Prop :=
  ∀ node ∈ tree.nodes, checked node.kind node.arguments node.children = .ok node

theorem Constraint.IsChecked.fits {c : Category} {tree : Constraint c} (h : tree.IsChecked) :
    tree.fits = true := by
  apply List.all_eq_true.mpr
  intro node hnode
  exact (checked_eq_ok (h node hnode)).2

/-- **What is stored reads back as far as its offsets go.** A literal, and a constraint or a
query that has passed the checks, is read back from its stored form as an equal one exactly if
each of its zoned date-times has an offset of whole minutes. The local years are taken to have
four digits. -/
theorem stored_form_reads_back_iff :
    (∀ l : Literal, (∀ z ∈ l.zoned, z.HasPlainYear) →
      ((∃ l', Literal.ofJson l.toJson = .ok l' ∧ l.equal l' = true) ↔
        ∀ z ∈ l.zoned, z.HasWholeOffset)) ∧
    (∀ (c : Category) (tree : Constraint c), tree.IsChecked → (∀ z ∈ tree.zoned, z.HasPlainYear) →
      ((∃ tree', Constraint.ofJson tree.toJson = .ok tree' ∧ tree.equal tree' = true) ↔
        ∀ z ∈ tree.zoned, z.HasWholeOffset)) ∧
    (∀ any : AnyConstraint, any.constraint.IsChecked → (∀ z ∈ any.zoned, z.HasPlainYear) →
      ((∃ any', AnyConstraint.ofJson any.toJson = .ok any' ∧ any.equal any' = true) ↔
        ∀ z ∈ any.zoned, z.HasWholeOffset)) ∧
    ∀ q : Query, Query.create q.head q.filterBy q.orderBy q.require = .ok q →
      (∀ any ∈ q.parts, any.constraint.IsChecked) → (∀ z ∈ q.zoned, z.HasPlainYear) →
      ((∃ q', Query.ofJson q.toJson = .ok q' ∧ q.equal q' = true) ↔
        ∀ z ∈ q.zoned, z.HasWholeOffset) := by
  refine ⟨?_, ?_, ?_, ?_⟩
  · intro l years
    constructor
    · rintro ⟨l', read, same⟩
      exact Literal.whole_of_readsBack years read same
    · intro whole
      exact ⟨l.stored, l.ofJson_toJson years whole, l.equal_stored⟩
  · intro c tree checked years
    constructor
    · rintro ⟨tree', read, same⟩
      exact Constraint.whole_of_readsBack years read same
    · intro whole
      exact ⟨tree.stored, Constraint.ofJson_toJson checked.fits years whole, tree.equal_stored⟩
  · intro any checked years
    constructor
    · rintro ⟨any', read, same⟩
      exact AnyConstraint.whole_of_readsBack years read same
    · intro whole
      exact ⟨_, AnyConstraint.ofJson_toJson checked.fits years whole, any.equal_stored⟩
  · intro q created checked years
    have rooted : q.rooted = true := by
      rw [← Outcome.toOption_eq_some, Query.toOption_create, Option.ite_none_right_eq_some] at created
      exact created.1
    have fits : q.fits = true := List.all_eq_true.mpr fun any ha => (checked any ha).fits
    constructor
    · rintro ⟨q', read, same⟩
      exact Query.whole_of_readsBack years read same
    · intro whole
      exact ⟨q.stored, Query.ofJson_toJson fits rooted years whole, q.equal_stored⟩

/-- Midnight of universal time on a day in May, seen from an offset. -/
def firstOfMay (offset : Offset) : ZonedDateTime where
  utc := ⟨⟨⟨2020, 5, 1, by decide, by decide, Nat.one_pos, by decide⟩, by decide⟩,
    ⟨0, 0, by decide, by decide, by decide⟩⟩
  offset := offset

/-- What is valid at an instant. -/
def validAt (z : ZonedDateTime) : FilterConstraint :=
  .node .filterBy [] [.node .priceValidIn [.zonedDateTime z] []]

def queryAt (z : ZonedDateTime) : Query :=
  ⟨.node .entities [.string "A"] [], some (validAt z), none, none⟩

theorem firstOfMay_reads_back :
    (∃ q', Query.ofJson (queryAt (firstOfMay ⟨3600, by decide, by decide⟩)).toJson = .ok q' ∧
      (queryAt (firstOfMay ⟨3600, by decide, by decide⟩)).equal q' = true) ∧
    ¬∃ l', Literal.ofJson
        (Literal.zonedDateTime (firstOfMay ⟨3601, by decide, by decide⟩)).toJson = .ok l' ∧
      (Literal.zonedDateTime (firstOfMay ⟨3601, by decide, by decide⟩)).equal l' = true := by
  obtain ⟨literals, -, -, queries⟩ := stored_form_reads_back_iff
  constructor
  · refine (queries (queryAt _) rfl ?_ (by decide)).mpr (by decide)
    have parts (z : ZonedDateTime) : (queryAt z).parts =
        [Constraint.toAny (.node .entities [.string "A"] []), (validAt z).toAny] := rfl
    have nodes (z : ZonedDateTime) : (validAt z).nodes =
        [validAt z, .node .priceValidIn [.zonedDateTime z] []] := rfl
    rw [parts, List.forall_mem_cons, List.forall_mem_singleton]
    constructor
    · intro node hn
      cases List.mem_singleton.mp hn
      rfl
    · rw [Constraint.IsChecked, Constraint.toAny, nodes, List.forall_mem_cons,
        List.forall_mem_singleton]
      exact ⟨rfl, rfl⟩
  · intro back
    have whole := (literals _ (by decide)).mp back _ (List.mem_singleton_self _)
    exact absurd whole (by decide)

end CatalogQuery
