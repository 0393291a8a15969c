import CatalogQuery.Proofs.Constraint.Fewer
import CatalogQuery.Proofs.Fragment.Signature
import Mathlib.Data.List.TakeWhile

/-!
# Fragments make what fits

No check stands between a fragment and its constraint. Still a fragment without gaps leaves
literals and nested constraints that have the layout of a shape of its kind, whatever of the
rest is missing, and a fragment with a gap vanishes.
-/

namespace CatalogQuery

variable {c : Category}

namespace Shape

variable {literals : List Literal} {number : Nat}

theorem many_literals {test : Slot → Bool} (some : literals ≠ [])
    (all : ∀ value ∈ literals, test (.literal value) = true) :
    many test (slotsOf c literals 0) = true := by
  rw [slotsOf, List.replicate_zero, List.append_nil, many, Bool.and_eq_true, Bool.not_eq_true',
    List.isEmpty_eq_false_iff, ne_eq, List.map_eq_nil_iff, List.all_map, List.all_eq_true]
  exact ⟨some, all⟩

theorem many_values (some : literals ≠ []) : many Slot.isValue (slotsOf c literals 0) = true :=
  many_literals some fun _ _ => rfl

theorem all_nested : (List.replicate number (Slot.constraint c)).all (Slot.isOf c) = true := by
  rw [List.all_replicate, Slot.isOf, beq_self_eq_true, ite_self]

theorem many_nested (some : 0 < number) : many (Slot.isOf c) (slotsOf c [] number) = true := by
  rw [slotsOf, List.map_nil, List.nil_append, many, all_nested, Bool.and_true, Bool.not_eq_true',
    List.isEmpty_eq_false_iff, ne_eq, List.replicate_eq_nil_iff]
  exact some.ne'

theorem splitLiterals_slotsOf : splitLiterals (slotsOf c literals number) =
    (literals.map Slot.literal, List.replicate number (.constraint c)) := by
  have values : ∀ slot ∈ literals.map Slot.literal, slot.isValue = true :=
    List.forall_mem_map.mpr fun _ _ => rfl
  rw [slotsOf, splitLiterals_append (isValue_of_mem_replicate c), splitLiterals,
    List.takeWhile_eq_self_iff.mpr values, List.dropWhile_eq_nil_iff.mpr values, List.nil_append]

/-- Entity types with nested constraints, of which none is needed. -/
theorem fitsParts_entityTypes (some : literals ≠ []) :
    entityTypesWithRequireList.fitsParts .require literals number = true := by
  simp only [fitsParts, fits, splitLiterals_slotsOf, all_nested, Bool.and_true, Bool.not_eq_true',
    List.isEmpty_eq_false_iff, ne_eq, List.map_eq_nil_iff]
  exact some

theorem fitsParts_within (key : Int64) (entityType : Option Literal) :
    hierarchyWithin.fitsParts .filter (entityType.toList ++ [.int key]) number = true := by
  simp only [fitsParts, fits, splitLiterals_slotsOf, all_nested, Bool.and_true]
  cases entityType <;> rfl

theorem fitsParts_withinRoot (entityType : Option Literal) :
    hierarchyWithinRoot.fitsParts .filter entityType.toList number = true := by
  simp only [fitsParts, fits, splitLiterals_slotsOf, all_nested, Bool.and_true]
  cases entityType <;> rfl

end Shape

namespace Signature

section
variable {signature : Signature c} (complete : ¬signature.Lacks)
include complete

theorem exists_of_scalar (value : Option Literal) (taken : .scalar true value ∈ signature.inputs) :
    ∃ literal, value = some literal := by
  apply Option.ne_none_iff_exists'.mp
  intro missing
  exact complete ⟨_, taken, rfl, missing⟩

theorem exists_of_child (node : Option (Constraint c)) (taken : .child node ∈ signature.inputs) :
    ∃ child, node = some child := by
  apply Option.ne_none_iff_exists'.mp
  intro missing
  exact complete ⟨_, taken, missing⟩

theorem exists_of_list (values : List (Option Literal))
    (taken : .list true values ∈ signature.inputs) : values.flatMap Option.toList ≠ [] := by
  rw [← present_eq_flatMap, ne_eq, present_eq_nil]
  intro missing
  exact complete ⟨_, taken, rfl, missing⟩

theorem exists_of_children (nodes : List (Option (Constraint c)))
    (taken : .children true nodes ∈ signature.inputs) : nodes.flatMap Option.toList ≠ [] := by
  rw [← present_eq_flatMap, ne_eq, present_eq_nil]
  intro missing
  exact complete ⟨_, taken, rfl, missing⟩

end

variable {kind : Kind c}

theorem node_one (input : Input c) :
    node ⟨kind, [input]⟩ = .node kind input.literals input.nodes := by
  rw [node, literals, nodes, List.flatMap_singleton, List.flatMap_singleton]

theorem node_two (first second : Input c) : node ⟨kind, [first, second]⟩ =
    .node kind (first.literals ++ second.literals) (first.nodes ++ second.nodes) := by
  simp only [node, literals, nodes, List.flatMap_cons, List.flatMap_nil, List.append_nil]

/-- What a signature without gaps leaves fits. -/
def Fits (signature : Signature c) : Prop :=
  ¬signature.Lacks → Constraint.fitsKind signature.node = true

theorem fits_of_shape {literals : List Literal} {nodes : List (Constraint c)} {shape : Shape}
    (listed : shape ∈ kind.shapes) (h : shape.fitsParts c literals nodes.length = true) :
    Constraint.fitsKind (.node kind literals nodes) = true :=
  List.any_eq_true.mpr ⟨shape, listed, h⟩

/-! ### Layouts -/

theorem fits_nothing (listed : .empty ∈ kind.shapes) : Fits ⟨kind, []⟩ := by
  intro _
  exact fits_of_shape listed rfl

theorem fits_given (shape : Shape) (listed : shape ∈ kind.shapes) {value : Literal}
    (h : shape.fits [.literal value] = true) : Fits ⟨kind, [.given value]⟩ := by
  intro _
  exact fits_of_shape listed h

theorem fits_value (listed : .value ∈ kind.shapes) (value : Option Literal) :
    Fits ⟨kind, [.scalar true value]⟩ := by
  intro complete
  obtain ⟨literal, rfl⟩ := exists_of_scalar complete value List.mem_cons_self
  exact fits_of_shape listed rfl

theorem fits_optional_value (listed : .value ∈ kind.shapes) (bare : .empty ∈ kind.shapes)
    (value : Option Literal) : Fits ⟨kind, [.scalar false value]⟩ := by
  intro _
  cases value with
  | none => exact fits_of_shape bare rfl
  | some literal => exact fits_of_shape listed rfl

theorem fits_name_value (listed : .nameWithValue ∈ kind.shapes) (name : String)
    (value : Option Literal) : Fits ⟨kind, [.name name, .scalar true value]⟩ := by
  intro complete
  obtain ⟨literal, rfl⟩ := exists_of_scalar complete value (by simp)
  exact fits_of_shape listed rfl

theorem fits_bounds (listed : .betweenValues ∈ kind.shapes) (lower upper : Option Literal) :
    Fits ⟨kind, [.scalar true lower, .scalar true upper]⟩ := by
  intro complete
  obtain ⟨low, rfl⟩ := exists_of_scalar complete lower (by simp)
  obtain ⟨high, rfl⟩ := exists_of_scalar complete upper (by simp)
  exact fits_of_shape listed rfl

theorem fits_name_bounds (listed : .nameWithBetweenValues ∈ kind.shapes) (name : String)
    (lower upper : Option Literal) :
    Fits ⟨kind, [.name name, .scalar true lower, .scalar true upper]⟩ := by
  intro complete
  obtain ⟨low, rfl⟩ := exists_of_scalar complete lower (by simp)
  obtain ⟨high, rfl⟩ := exists_of_scalar complete upper (by simp)
  exact fits_of_shape listed rfl

theorem fits_values (listed : .valueList ∈ kind.shapes) (values : List (Option Literal)) :
    Fits ⟨kind, [.list true values]⟩ := by
  intro complete
  rw [node_one]
  exact fits_of_shape listed (Shape.many_values (exists_of_list complete _ List.mem_cons_self))

theorem fits_optional_values (listed : .valueList ∈ kind.shapes) (bare : .empty ∈ kind.shapes)
    (values : List (Option Literal)) : Fits ⟨kind, [.list false values]⟩ := by
  intro _
  rw [node_one]
  by_cases none : (Input.list false values : Input c).literals = []
  · rw [none]
    exact fits_of_shape bare rfl
  · exact fits_of_shape listed (Shape.many_values none)

theorem isName_of_names {isNeeded : Bool} {names : List String} :
    ∀ value ∈ (Input.names isNeeded names : Input c).literals,
      (Slot.literal value).isName = true := by
  simp [Input.names, Input.literals, Slot.isName]

theorem fits_optional_names (listed : .nameList ∈ kind.shapes) (bare : .empty ∈ kind.shapes)
    (names : List String) : Fits ⟨kind, [.names false names]⟩ := by
  intro _
  rw [node_one]
  by_cases none : (Input.names false names : Input c).literals = []
  · rw [none]
    exact fits_of_shape bare rfl
  · exact fits_of_shape listed (Shape.many_literals none isName_of_names)

theorem fits_name_values (listed : .nameWithValueList ∈ kind.shapes) (name : String)
    (values : List (Option Literal)) : Fits ⟨kind, [.name name, .list true values]⟩ := by
  intro complete
  have some := exists_of_list complete values (by simp)
  rw [node_two]
  exact fits_of_shape listed (Shape.many_values some)

theorem fits_type_values (listed : .entityTypeWithValueList ∈ kind.shapes)
    (entityType : Option Literal) (values : List (Option Literal)) :
    Fits ⟨kind, [.scalar true entityType, .list true values]⟩ := by
  intro complete
  obtain ⟨literal, rfl⟩ := exists_of_scalar complete entityType (by simp)
  have some := exists_of_list complete values (by simp)
  rw [node_two]
  exact fits_of_shape listed (Shape.many_values some)

theorem fits_value_names (listed : .valueWithNameList ∈ kind.shapes) (value : Option Literal)
    (names : List String) : Fits ⟨kind, [.scalar true value, .names true names]⟩ := by
  intro complete
  obtain ⟨literal, rfl⟩ := exists_of_scalar complete value (by simp)
  have some := exists_of_list complete (names.map fun name => some (.string name))
    (by simp [Input.names])
  rw [node_two]
  exact fits_of_shape listed (Shape.many_literals some isName_of_names)

/-! ### Layouts with nested constraints -/

section
variable {shape : Shape} {nodes : List (Constraint c)} (listed : shape ∈ kind.shapes)
  (some : nodes ≠ [])
include listed some

theorem fitsKind_of_nodes (nested : shape.fits = Shape.many (Slot.isOf c)) :
    Constraint.fitsKind (.node kind [] nodes) = true := by
  apply fits_of_shape listed
  rw [Shape.fitsParts, nested]
  exact Shape.many_nested (List.length_pos_of_ne_nil some)

theorem fitsKind_of_type_nodes
    (nested : shape.fits = Shape.followedBy Slot.isValue (Shape.many (Slot.isOf c)))
    (entityType : Literal) : Constraint.fitsKind (.node kind [entityType] nodes) = true := by
  apply fits_of_shape listed
  rw [Shape.fitsParts, nested]
  exact Shape.many_nested (List.length_pos_of_ne_nil some)

end

section
variable (shape : Shape) (listed : shape ∈ kind.shapes) (nodes : List (Option (Constraint c)))
include listed

theorem fits_children (nested : shape.fits = Shape.many (Slot.isOf c)) :
    Fits ⟨kind, [.children true nodes]⟩ := by
  intro complete
  rw [node_one]
  exact fitsKind_of_nodes listed (exists_of_children complete nodes List.mem_cons_self) nested

theorem fits_optional_children (nested : shape.fits = Shape.many (Slot.isOf c))
    (bare : .empty ∈ kind.shapes) : Fits ⟨kind, [.children false nodes]⟩ := by
  intro _
  rw [node_one]
  by_cases none : (Input.children false nodes).nodes = []
  · rw [none]
    exact fits_of_shape bare rfl
  · exact fitsKind_of_nodes listed none nested

theorem fits_type_children
    (nested : shape.fits = Shape.followedBy Slot.isValue (Shape.many (Slot.isOf c)))
    (entityType : Option Literal) :
    Fits ⟨kind, [.scalar true entityType, .children true nodes]⟩ := by
  intro complete
  obtain ⟨literal, rfl⟩ := exists_of_scalar complete entityType List.mem_cons_self
  have some := exists_of_children complete nodes (by simp)
  rw [node_two]
  exact fitsKind_of_type_nodes listed some nested literal

theorem fits_type_optional_children
    (nested : shape.fits = Shape.followedBy Slot.isValue (Shape.many (Slot.isOf c)))
    (bare : .value ∈ kind.shapes) (entityType : Option Literal) :
    Fits ⟨kind, [.scalar true entityType, .children false nodes]⟩ := by
  intro complete
  obtain ⟨literal, rfl⟩ := exists_of_scalar complete entityType List.mem_cons_self
  rw [node_two]
  by_cases none : (Input.children false nodes).nodes = []
  · rw [none]
    exact fits_of_shape bare rfl
  · exact fitsKind_of_type_nodes listed none nested literal

end

section
variable {kind : Kind .filter}

theorem fits_child (listed : .singleFilter ∈ kind.shapes) (node : Option FilterConstraint) :
    Fits ⟨kind, [.child node]⟩ := by
  intro complete
  obtain ⟨child, rfl⟩ := exists_of_child complete node List.mem_cons_self
  exact fits_of_shape listed rfl

theorem fits_type_child (listed : .entityTypeWithFilter ∈ kind.shapes)
    (entityType : Option Literal) (node : Option FilterConstraint) :
    Fits ⟨kind, [.scalar true entityType, .child node]⟩ := by
  intro complete
  obtain ⟨literal, rfl⟩ := exists_of_scalar complete entityType (by simp)
  obtain ⟨child, rfl⟩ := exists_of_child complete node (by simp)
  exact fits_of_shape listed rfl

theorem fits_within (listed : .hierarchyWithin ∈ kind.shapes) (key : Option Literal)
    (nodes : List (Option FilterConstraint)) : Fits ⟨kind, [.key key, .children false nodes]⟩ := by
  intro complete
  obtain ⟨number, rfl⟩ := exists_of_key complete key (by simp)
  exact fits_of_shape listed (Shape.fitsParts_within number none)

theorem fits_type_within (listed : .hierarchyWithin ∈ kind.shapes)
    (entityType key : Option Literal) (nodes : List (Option FilterConstraint)) :
    Fits ⟨kind, [.scalar false entityType, .key key, .children false nodes]⟩ := by
  intro complete
  obtain ⟨number, rfl⟩ := exists_of_key complete key (by simp)
  exact fits_of_shape listed (Shape.fitsParts_within number entityType)

theorem fits_withinRoot (listed : .hierarchyWithinRoot ∈ kind.shapes)
    (nodes : List (Option FilterConstraint)) : Fits ⟨kind, [.children false nodes]⟩ := by
  intro _
  exact fits_of_shape listed (Shape.fitsParts_withinRoot none)

theorem fits_type_withinRoot (listed : .hierarchyWithinRoot ∈ kind.shapes)
    (entityType : Option Literal) (nodes : List (Option FilterConstraint)) :
    Fits ⟨kind, [.scalar false entityType, .children false nodes]⟩ := by
  intro _
  rw [node_two, Input.literals, Input.literals, List.append_nil]
  exact fits_of_shape listed (Shape.fitsParts_withinRoot entityType)

end

theorem fits_types_optional_children {kind : Kind .require}
    (listed : .entityTypesWithRequireList ∈ kind.shapes) (entityTypes : List (Option Literal))
    (nodes : List (Option RequireConstraint)) :
    Fits ⟨kind, [.list true entityTypes, .children false nodes]⟩ := by
  intro complete
  have some := exists_of_list complete _ List.mem_cons_self
  rw [node_two, Input.literals, Input.literals, List.append_nil]
  exact fits_of_shape listed (Shape.fitsParts_entityTypes some)

end Signature

/-- Every fragment is of one of the layouts. -/
theorem Fragment.fits_signature (fragment : Fragment c) : fragment.signature.Fits := by
  cases fragment with
  | entities value | language value | priceInCurrency value | priceValidIn value
  | useOfPrice value | priceHistogram value => exact Signature.fits_value (.head _) _
  | equals name value | greaterThan name value | greaterThanEquals name value
  | lessThan name value | lessThanEquals name value | contains name value
  | startsWith name value | endsWith name value | inRange name value =>
    exact Signature.fits_name_value (.head _) name value
  | isTrue name | isFalse name | isNull name | isNotNull name | ascending name
  | descending name => exact Signature.fits_given .name (.head _) rfl
  | directRelation | excludingRoot | priceAscending | priceDescending | random | entityBody
  | attributes => exact Signature.fits_nothing (.head _)
  | priceValidInNow => exact Signature.fits_nothing (.tail _ (.head _))
  | between name lower upper => exact Signature.fits_name_bounds (.head _) name lower upper
  | priceBetween lower upper | page lower upper | strip lower upper =>
    exact Signature.fits_bounds (.head _) lower upper
  | inSet name values => exact Signature.fits_name_values (.head _) name values
  | primaryKey values | priceInPriceLists values | excluding values =>
    exact Signature.fits_values (.head _) values
  | facet entityType values | facetGroupsConjunction entityType values
  | facetGroupsDisjunction entityType values | facetGroupsNegation entityType values =>
    exact Signature.fits_type_values (.head _) entityType values
  | attributeHistogram value names => exact Signature.fits_value_names (.head _) value names
  | references values | dataInLanguage values =>
    exact Signature.fits_optional_values (.head _) (.tail _ (.head _)) values
  | associatedData names => exact Signature.fits_optional_names (.head _) (.tail _ (.head _)) names
  | prices value | facetSummary value =>
    exact Signature.fits_optional_value (.head _) (.tail _ (.head _)) _
  | allPrices => exact Signature.fits_given .value (.head _) rfl
  | filterBy nodes | and nodes | or nodes | userFilter nodes =>
    exact Signature.fits_children .filterList (.head _) nodes rfl
  | orderBy nodes => exact Signature.fits_children .orderList (.head _) nodes rfl
  | require nodes => exact Signature.fits_children .requireList (.head _) nodes rfl
  | not node => exact Signature.fits_child (.head _) node
  | referenceHavingAttribute entityType node =>
    exact Signature.fits_type_child (.head _) entityType node
  | withinHierarchy key nodes => exact Signature.fits_within (.head _) key nodes
  | withinHierarchyOfType entityType key nodes =>
    exact Signature.fits_type_within (.head _) entityType key nodes
  | withinRootHierarchy nodes => exact Signature.fits_withinRoot (.head _) nodes
  | withinRootHierarchyOfType entityType nodes =>
    exact Signature.fits_type_withinRoot (.head _) entityType nodes
  | referenceAttribute entityType nodes =>
    exact Signature.fits_type_children .entityTypeWithOrderList (.head _) nodes rfl entityType
  | parents nodes =>
    exact Signature.fits_optional_children .requireList (.head _) nodes rfl (.tail _ (.head _))
  | parentsOfType entityTypes nodes =>
    exact Signature.fits_types_optional_children (.head _) entityTypes nodes
  | hierarchyStatistics entityType nodes =>
    exact Signature.fits_type_optional_children .entityTypeWithRequireList (.head _) nodes rfl
      (.tail _ (.head _)) entityType

/-! ### What is made -/

namespace Constraint

/-- A constraint that could be built with all checks, and that still constrains. -/
structure Sound (node : Constraint c) : Prop where
  checked : Constraint.checked node.kind node.arguments node.children = .ok node
  applicable : node.isApplicable = true

theorem sound_of_fitsKind {node : Constraint c} (h : node.fitsKind = true) : node.Sound := by
  cases node with
  | node kind arguments children =>
    have built := toOption_checked kind arguments children
    rw [if_pos h] at built
    exact ⟨Outcome.toOption_eq_some.mp built, isApplicable_of_fits h⟩

theorem fitsKind_of_fits {node : Constraint c} (h : node.fits = true) : node.fitsKind = true := by
  cases node with
  | node kind arguments children =>
    rw [fits_node, Bool.and_eq_true] at h
    exact h.1

end Constraint

namespace Fragment

theorem make?_eq_none (fragment : Fragment c) :
    fragment.make? = none ↔ fragment.signature.Lacks := by
  rw [make?, Recipe.make?_eq_none, fragment.recipe_follows.lacks]

theorem make?_eq_some {fragment : Fragment c} (complete : ¬fragment.signature.Lacks) :
    fragment.make? = some fragment.signature.node := by
  have follows := fragment.recipe_follows
  have gapless : ¬fragment.recipe.Lacks := by rwa [follows.lacks]
  rw [make?, Recipe.make?_eq_some gapless, follows.kind, follows.literals complete, follows.nodes]
  rfl

end Fragment

/-- The content of a fully loaded entity: all that there is of each sort, and all prices. -/
def entityContent : List RequireConstraint :=
  [.node .entityBody [] [], .node .attributes [] [], .node .associatedData [] [],
    .node .prices [.enum PriceFetchMode.all.token] [], .node .references [] [],
    .node .dataInLanguage [] []]

theorem fullEntityAnd_eq (extras : List (Option RequireConstraint)) :
    fullEntityAnd extras = entityContent ++ extras.flatMap Option.toList := by
  rw [← present_eq_flatMap]
  rfl

theorem fits_entityContent : ∀ node ∈ entityContent, node.fits = true := by
  decide

/-- **A fragment vanishes exactly if something needed is missing; otherwise it makes a
constraint that fits.** The constraint holds the literals and nested constraints that are there,
in their order. The content of a fully loaded entity is a list of such constraints, with all
that is there of the extras behind it. -/
theorem fragments_make_what_fits :
    (∀ (c : Category) (fragment : Fragment c),
      (fragment.make? = none ↔ fragment.signature.Lacks) ∧
      (¬fragment.signature.Lacks →
        fragment.make? = some fragment.signature.node ∧ fragment.signature.node.Sound ∧
        ((∀ child ∈ fragment.signature.nodes, child.fits = true) →
          fragment.signature.node.fits = true))) ∧
    ∀ extras : List (Option RequireConstraint),
      fullEntityAnd extras = entityContent ++ extras.flatMap Option.toList ∧
      ((∀ extra, some extra ∈ extras → extra.fits = true) →
        ∀ node ∈ fullEntityAnd extras, node.Sound ∧ node.fits = true) := by
  constructor
  · intro c fragment
    refine ⟨fragment.make?_eq_none, fun complete => ?_⟩
    have own := fragment.fits_signature complete
    refine ⟨Fragment.make?_eq_some complete, Constraint.sound_of_fitsKind own, fun below => ?_⟩
    rw [Signature.node, Constraint.fits_node, Bool.and_eq_true, List.all_eq_true]
    exact ⟨own, below⟩
  · intro extras
    refine ⟨fullEntityAnd_eq extras, fun fit node hn => ?_⟩
    rw [fullEntityAnd_eq, List.mem_append, List.mem_flatMap] at hn
    have whole : node.fits = true := by
      rcases hn with content | ⟨extra, he, there⟩
      · exact fits_entityContent node content
      · rw [Option.mem_toList] at there
        obtain rfl := there
        exact fit node he
    exact ⟨Constraint.sound_of_fitsKind (Constraint.fitsKind_of_fits whole), whole⟩

/-- A facet without its entity type vanishes. A hierarchy without one keeps its key and its
modifiers, and what is missing of the extras of an entity is left out. -/
theorem untyped_facet_vanishes :
    (Fragment.facet none [some (.int 1)]).make? = none ∧
    (∃ node, (Fragment.withinHierarchyOfType none (some (.int 5))
        [none, some (.node .directRelation [] [])]).make? = some node ∧
      node = .node .withinHierarchy [.int 5] [.node .directRelation [] []] ∧
      node.Sound ∧ node.fits = true) ∧
    ∀ node ∈ fullEntityAnd [none, some (.node .page [.int 1, .int 20] [])],
      node.Sound ∧ node.fits = true := by
  obtain ⟨made, entity⟩ := fragments_make_what_fits
  have facet := made .filter (.facet none [some (.int 1)])
  have within := made .filter (.withinHierarchyOfType none (some (.int 5))
    [none, some (.node .directRelation [] [])])
  refine ⟨facet.1.mpr ⟨.scalar true none, List.mem_cons_self, rfl, rfl⟩, ?_, ?_⟩
  · obtain ⟨same, sound, fits⟩ := within.2
      (by simp [Fragment.signature, Signature.Lacks, Input.Lacking])
    exact ⟨_, same, rfl, sound, fits (by decide)⟩
  · apply (entity _).2
    intro extra he
    obtain rfl : extra = .node .page [.int 1, .int 20] [] := by simpa using he
    decide

end CatalogQuery
