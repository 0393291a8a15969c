import CatalogQuery.Proofs.Parse.Errors
import CatalogQuery.Proofs.Query.Roles

/-!
# Written arguments and built constraints match alike

A shape is looked for among arguments as written, which mix literals with constraints of any
category. Building a constraint sorts them, and nothing is left of their order but that of the
literals and that of the constraints. No shape admits an order that would be lost.
-/

namespace CatalogQuery

open Constraint (written)

variable {c : Category}

/-! ### One order of arguments -/

/-- A shape sees the same in arguments as written and in the parts that are made of them. -/
theorem Shape.fitsArguments_written_iff (shape : Shape) (literals : List Literal)
    (children : List (Constraint c)) :
    shape.fitsArguments (written literals children) = true ↔
      shape.fitsParts c literals children.length = true := by
  rw [Shape.fitsArguments, Constraint.slots_written, Shape.fitsParts]

/-- Constraints after literals fit as many constraints of the category do. -/
theorem Shape.fitsArguments_of_fitsParts {shape : Shape} {literals : List Literal}
    {anys : List AnyConstraint} (own : ∀ any ∈ anys, any.category = c)
    (fits : shape.fitsParts c literals anys.length = true) :
    shape.fitsArguments (literals.map .literal ++ anys.map .constraint) = true := by
  obtain ⟨children, rfl⟩ := Grammar.exists_own own
  rw [List.length_map] at fits
  rw [List.map_map]
  exact (shape.fitsArguments_written_iff literals children).mpr fits

/-- **What fits a shape of a kind is written in the one order that is kept**: literals, and
after them constraints of the category of the kind, if it may have any. -/
theorem Constraint.exists_written {kind : Kind c} {shape : Shape} (listed : shape ∈ kind.shapes)
    {items : List Argument} (fits : shape.fitsArguments items = true) :
    ∃ (literals : List Literal) (children : List (Constraint c)),
      items = written literals children ∧ (kind.isContainer = false → children = []) ∧
      ofArguments kind items = .ok (.node kind literals children) ∧
      shape.fitsParts c literals children.length = true ∧
      ∀ site, Grammar.build site kind items = .ok (node kind literals children).toAny := by
  obtain ⟨literals, children, rfl⟩ := Grammar.written_of_fitsArguments listed fits
  have parts := (shape.fitsArguments_written_iff literals children).mp fits
  have sort : kind.isContainer = true ∨ children = [] :=
    isContainer_of_fits (List.any_eq_true.mpr ⟨shape, listed, parts⟩)
  have made : ofArguments kind (written literals children) = .ok (.node kind literals children) :=
    ofArguments_written sort
  refine ⟨literals, children, rfl, fun leaf => ?_, made, parts, fun site => ?_⟩
  · simpa [leaf] using sort
  · rw [Grammar.build, if_pos (List.any_eq_true.mpr ⟨shape, listed, fits⟩), made]

/-! ### One shape at most -/

namespace Shape

/-- No slots have the layout of both shapes. -/
def Exclusive (a b : Shape) : Prop := ∀ slots, a.fits slots = true → b.fits slots = false

theorem exclusive_empty {shape : Shape} (needs : shape.fits [] = false) :
    Exclusive shape .empty := by
  intro slots fits
  cases slots with
  | nil => simp [needs] at fits
  | cons slot slots => rfl

/-- An entity type that constraints follow is not a value alone. -/
theorem exclusive_value : Exclusive .entityTypeWithRequireList .value := by
  intro slots fits
  obtain ⟨slot, rest, rfl, -, nested⟩ := followedBy_parts fits
  cases rest with
  | nil => cases nested
  | cons slot rest => rfl

end Shape

/-- The catalog offers a choice only between something and nothing, or between an entity type
with constraints and without. -/
theorem Kind.shapes_apart (kind : Kind c) : kind.shapes.Pairwise fun a b =>
    b = .empty ∧ a.fits [] = false ∨ a = .entityTypeWithRequireList ∧ b = .value := by
  cases kind <;> decide

theorem Kind.shapes_exclusive (kind : Kind c) : kind.shapes.Pairwise Shape.Exclusive := by
  apply kind.shapes_apart.imp
  rintro a b (⟨rfl, needs⟩ | ⟨rfl, rfl⟩)
  · exact Shape.exclusive_empty needs
  · exact Shape.exclusive_value

theorem countP_le_one {α : Type} {p : α → Bool} {as : List α}
    (h : as.Pairwise fun a b => p a = true → p b = false) : as.countP p ≤ 1 := by
  induction h with
  | nil => simp
  | @cons a as first _ ih =>
    by_cases ha : p a = true
    · have none : as.countP p = 0 := List.countP_eq_zero.mpr fun b hb => by simp [first b hb ha]
      simp [ha, none]
    · simpa [ha] using ih

/-- At most one shape of a kind fits any arguments. -/
theorem Kind.countP_shapes_le_one (kind : Kind c) (items : List Argument) :
    kind.shapes.countP (·.fitsArguments items) ≤ 1 :=
  countP_le_one (kind.shapes_exclusive.imp fun exclusive => exclusive _)

/-! ### Nothing that fits fails to be built -/

/-- The error of arguments that fit a shape and that no constraint or query is made of. -/
def ParseError.OfConstruction (e : ParseError) : Prop :=
  ∃ keyword place error, e = .invalidArguments keyword place (.buildable error)

namespace Grammar

variable {e : ParseError}

theorem not_ofConstruction_of_build {site : Site} {kind : Kind c} {items : List Argument}
    (h : build site kind items = .error e) : ¬e.OfConstruction := by
  by_cases fits : kind.shapes.any (·.fitsArguments items) = true
  · obtain ⟨tree, built⟩ := build_of_fits site fits
    rw [built] at h
    cases h
  · rw [build, if_neg fits] at h
    cases h
    simp [ParseError.OfConstruction]

theorem not_ofConstruction_of_firstFault {text : List Char} {calls : List Call}
    (h : FirstFault text calls e) : ¬e.OfConstruction := by
  obtain ⟨-, call, -, -, -, faults⟩ := h
  cases faults <;> simp [ParseError.OfConstruction]

theorem not_ofConstruction_of_resolve {text : List Char} {raw : RawNode}
    (h : resolve text raw = .error e) : ¬e.OfConstruction := by
  have node := resolves_node text raw
  rw [h] at node
  exact not_ofConstruction_of_firstFault node

theorem not_ofConstruction_of_queryFault {text : List Char} {place : Text.Position}
    {raws : List RawNode} (h : QueryFault text place raws e) : ¬e.OfConstruction := by
  cases h with
  | obstacle _ _ _ obstacle =>
    cases obstacle with
    | unresolved refused => exact not_ofConstruction_of_resolve refused
    | misplaced _ _ => simp [ParseError.OfConstruction]
  | headless _ _ _ => simp [ParseError.OfConstruction]

/-- The parts of a query are checked before it is built, so it can always be built. -/
theorem not_ofConstruction_of_resolveQuery {site : Site} {raws : List RawNode}
    (h : resolveQuery site raws = .error e) : ¬e.OfConstruction := by
  -- Parts in their places make a query, so an error comes from a part or from a missing place.
  rcases makes_or_fault site.text site.place raws with ⟨items, resolved, makes⟩ | ⟨e', fault⟩
  · obtain ⟨parts, head, -, -, built⟩ := resolveQuery_of_makes site resolved makes
    rw [built] at h
    cases h
  · rw [resolveQuery_of_fault site fault] at h
    cases h
    exact not_ofConstruction_of_queryFault fault

theorem not_ofConstruction_of_resolveRoot {text : List Char} {raw : RawNode}
    (h : resolveRoot text raw = .error e) : ¬e.OfConstruction := by
  cases raw with
  | literal value => cases h
  | call keyword source arguments =>
    by_cases query : keyword = Query.keyword
    · rw [resolveRoot, if_pos query] at h
      cases resolved : resolveQuery ⟨text, source⟩ arguments with
      | ok q =>
        rw [resolved] at h
        cases h
      | error e' =>
        rw [resolved] at h
        cases h
        exact not_ofConstruction_of_resolveQuery resolved
    · have root := resolves_root text source arguments query
      rw [h] at root
      exact not_ofConstruction_of_firstFault root

end Grammar

open Grammar

/-- No text is refused because what fits a shape could not be built. -/
theorem not_ofConstruction_of_parse {text : List Char} {e : ParseError}
    (h : parse text = .error e) : ¬e.OfConstruction := by
  cases read : readRoot text with
  | error failure =>
    rw [parse, read] at h
    cases h
    simp [ParseError.OfConstruction, Failure.toError]
  | ok raw =>
    rw [parse_of_readRoot read] at h
    exact not_ofConstruction_of_resolveRoot h

/-- **Matching arguments as written and matching the constraint made of them is one.** If a
shape of a kind fits a list of items, the items are literals and then constraints of the
category of the kind, none if the kind is no container; the constraint is built of just these,
also where a text is parsed, and its parts fit the shape. If parts fit a shape, so do the literals followed by any as many
constraints of the category. At most one shape of a kind fits any items, and what fits one is
never refused for a failure to build it, neither of a kind nor of a whole text. -/
theorem matching_agrees :
    (∀ (c : Category) (kind : Kind c),
      (∀ shape ∈ kind.shapes, ∀ items : List Argument, shape.fitsArguments items = true →
        ∃ (literals : List Literal) (children : List (Constraint c)),
          items = literals.map .literal ++ children.map (fun child => .constraint child.toAny) ∧
          (kind.isContainer = false → children = []) ∧
          Constraint.ofArguments kind items = .ok (.node kind literals children) ∧
          shape.fitsParts c literals children.length = true ∧
          ∀ site, build site kind items = .ok (Constraint.node kind literals children).toAny) ∧
      (∀ (shape : Shape) (literals : List Literal) (anys : List AnyConstraint),
        (∀ any ∈ anys, any.category = c) →
        shape.fitsParts c literals anys.length = true →
        shape.fitsArguments (literals.map .literal ++ anys.map .constraint) = true) ∧
      (∀ items, kind.shapes.countP (·.fitsArguments items) ≤ 1) ∧
      ∀ site items e, build site kind items = .error e → ¬e.OfConstruction) ∧
    ∀ text e, parse text = .error e → ¬e.OfConstruction := by
  refine ⟨fun c kind => ⟨?_, ?_, kind.countP_shapes_le_one, ?_⟩, ?_⟩
  · intro shape listed items fits
    exact Constraint.exists_written listed fits
  · intro shape literals anys own fits
    exact Shape.fitsArguments_of_fitsParts own fits
  · intro site items e failed
    exact not_ofConstruction_of_build failed
  · intro text e failed
    exact not_ofConstruction_of_parse failed

/-- The items of `withinHierarchy('tree', 1, directRelation())`. -/
def treeItems : List Argument :=
  [.literal (.string "tree"), .literal (.int 1),
    .constraint ⟨.filter, .node .directRelation [] []⟩]

theorem treeItems_match :
    (∃ (literals : List Literal) (children : List (Constraint .filter)),
      treeItems = literals.map .literal ++
        children.map (fun child => .constraint child.toAny) ∧
      (Kind.withinHierarchy.isContainer = false → children = []) ∧
      Constraint.ofArguments .withinHierarchy treeItems =
        .ok (.node .withinHierarchy literals children) ∧
      Shape.hierarchyWithin.fitsParts .filter literals children.length = true ∧
      ∀ site, build site .withinHierarchy treeItems =
        .ok (Constraint.node .withinHierarchy literals children).toAny) ∧
    Shape.hierarchyWithin.fitsArguments ([Literal.int 1].map .literal ++
      [(⟨.filter, .node .directRelation [] []⟩ : AnyConstraint)].map .constraint) = true ∧
    ¬ParseError.OfConstruction (.invalidArguments "page" ⟨1, 1⟩ (.shapes [.betweenValues])) := by
  obtain ⟨kinds, texts⟩ := matching_agrees
  obtain ⟨forward, backward, -, -⟩ := kinds .filter .withinHierarchy
  refine ⟨forward .hierarchyWithin (by decide) treeItems rfl,
    backward .hierarchyWithin [.int 1] _ (by simp) rfl, ?_⟩
  exact texts "page()".toList _ rfl

end CatalogQuery
