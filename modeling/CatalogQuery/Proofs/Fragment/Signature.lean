import CatalogQuery.Fragment.Basic

namespace CatalogQuery

variable {c : Category}

/-- What stands in one place of a fragment. -/
inductive Input (c : Category)
  /-- A literal that is never missing. -/
  | given (value : Literal)
  | scalar (isNeeded : Bool) (value : Option Literal)
  /-- The key of a node in a hierarchy, which is needed. -/
  | key (value : Option Literal)
  | list (isNeeded : Bool) (values : List (Option Literal))
  /-- A nested constraint, which is needed. -/
  | child (node : Option (Constraint c))
  | children (isNeeded : Bool) (nodes : List (Option (Constraint c)))

namespace Input

def name (name : String) : Input c := .given (.string name)

def names (isNeeded : Bool) (names : List String) : Input c :=
  .list isNeeded (names.map fun name => some (.string name))

/-- What is needed is missing. Of a needed list one member has to be there, and a key has to
be a whole number. -/
def Lacking : Input c → Prop
  | .given _ => False
  | .scalar isNeeded value => isNeeded = true ∧ value = none
  | .key value => ∀ number, value ≠ some (.int number)
  | .list isNeeded values => isNeeded = true ∧ ∀ value ∈ values, value = none
  | .child node => node = none
  | .children isNeeded nodes => isNeeded = true ∧ ∀ node ∈ nodes, node = none

/-- The literals of an input that are there. -/
def literals : Input c → List Literal
  | .given value => [value]
  | .scalar _ value | .key value => value.toList
  | .list _ values => values.flatMap Option.toList
  | .child _ | .children _ _ => []

def nodes : Input c → List (Constraint c)
  | .child node => node.toList
  | .children _ nodes => nodes.flatMap Option.toList
  | _ => []

end Input

/-- A kind and what stands between its brackets. -/
structure Signature (c : Category) where
  kind : Kind c
  inputs : List (Input c)

namespace Signature

variable (signature : Signature c)

def Lacks : Prop := ∃ input ∈ signature.inputs, input.Lacking

/-- The literals that are there, in their order. -/
def literals : List Literal := signature.inputs.flatMap Input.literals

def nodes : List (Constraint c) := signature.inputs.flatMap Input.nodes

/-- The constraint of all that is there. -/
def node : Constraint c := .node signature.kind signature.literals signature.nodes

variable {signature}

/-- A key that a signature without gaps takes is a whole number. -/
theorem exists_of_key (complete : ¬signature.Lacks) (value : Option Literal)
    (taken : .key value ∈ signature.inputs) : ∃ number, value = some (.int number) := by
  have whole : ¬∀ number, value ≠ some (.int number) :=
    fun missing => complete ⟨_, taken, missing⟩
  obtain ⟨number, same⟩ := Classical.not_forall.mp whole
  exact ⟨number, Classical.not_not.mp same⟩

end Signature

/-- The kind of a fragment and what it takes. -/
def Fragment.signature {c : Category} : Fragment c → Signature c
  | .entities entityType => ⟨.entities, [.scalar true entityType]⟩
  | .filterBy children => ⟨.filterBy, [.children true children]⟩
  | .and children => ⟨.and, [.children true children]⟩
  | .or children => ⟨.or, [.children true children]⟩
  | .not child => ⟨.not, [.child child]⟩
  | .userFilter children => ⟨.userFilter, [.children true children]⟩
  | .equals name value => ⟨.equals, [.name name, .scalar true value]⟩
  | .greaterThan name value => ⟨.greaterThan, [.name name, .scalar true value]⟩
  | .greaterThanEquals name value => ⟨.greaterThanEquals, [.name name, .scalar true value]⟩
  | .lessThan name value => ⟨.lessThan, [.name name, .scalar true value]⟩
  | .lessThanEquals name value => ⟨.lessThanEquals, [.name name, .scalar true value]⟩
  | .contains name text => ⟨.contains, [.name name, .scalar true text]⟩
  | .startsWith name text => ⟨.startsWith, [.name name, .scalar true text]⟩
  | .endsWith name text => ⟨.endsWith, [.name name, .scalar true text]⟩
  | .inRange name value => ⟨.inRange, [.name name, .scalar true value]⟩
  | .between name lower upper => ⟨.between, [.name name, .scalar true lower, .scalar true upper]⟩
  | .inSet name values => ⟨.inSet, [.name name, .list true values]⟩
  | .isTrue name => ⟨.isTrue, [.name name]⟩
  | .isFalse name => ⟨.isFalse, [.name name]⟩
  | .isNull name => ⟨.isNull, [.name name]⟩
  | .isNotNull name => ⟨.isNotNull, [.name name]⟩
  | .language locale => ⟨.language, [.scalar true locale]⟩
  | .primaryKey keys => ⟨.primaryKey, [.list true keys]⟩
  | .priceInCurrency currency => ⟨.priceInCurrency, [.scalar true currency]⟩
  | .priceInPriceLists priceLists => ⟨.priceInPriceLists, [.list true priceLists]⟩
  | .priceValidIn moment => ⟨.priceValidIn, [.scalar true moment]⟩
  | .priceValidInNow => ⟨.priceValidIn, []⟩
  | .priceBetween lower upper => ⟨.priceBetween, [.scalar true lower, .scalar true upper]⟩
  | .facet entityType keys => ⟨.facet, [.scalar true entityType, .list true keys]⟩
  | .referenceHavingAttribute entityType filter =>
    ⟨.referenceHavingAttribute, [.scalar true entityType, .child filter]⟩
  | .withinHierarchy key modifiers => ⟨.withinHierarchy, [.key key, .children false modifiers]⟩
  | .withinHierarchyOfType entityType key modifiers =>
    ⟨.withinHierarchy, [.scalar false entityType, .key key, .children false modifiers]⟩
  | .withinRootHierarchy modifiers => ⟨.withinRootHierarchy, [.children false modifiers]⟩
  | .withinRootHierarchyOfType entityType modifiers =>
    ⟨.withinRootHierarchy, [.scalar false entityType, .children false modifiers]⟩
  | .directRelation => ⟨.directRelation, []⟩
  | .excludingRoot => ⟨.excludingRoot, []⟩
  | .excluding keys => ⟨.excluding, [.list true keys]⟩
  | .orderBy children => ⟨.orderBy, [.children true children]⟩
  | .ascending name => ⟨.ascending, [.name name]⟩
  | .descending name => ⟨.descending, [.name name]⟩
  | .priceAscending => ⟨.priceAscending, []⟩
  | .priceDescending => ⟨.priceDescending, []⟩
  | .random => ⟨.random, []⟩
  | .referenceAttribute entityType children =>
    ⟨.referenceAttribute, [.scalar true entityType, .children true children]⟩
  | .require children => ⟨.require, [.children true children]⟩
  | .page number size => ⟨.page, [.scalar true number, .scalar true size]⟩
  | .strip offset limit => ⟨.strip, [.scalar true offset, .scalar true limit]⟩
  | .entityBody => ⟨.entityBody, []⟩
  | .attributes => ⟨.attributes, []⟩
  | .prices mode => ⟨.prices, [.scalar false (mode.map fun mode => .enum mode.token)]⟩
  | .allPrices => ⟨.prices, [.given (.enum PriceFetchMode.all.token)]⟩
  | .associatedData names => ⟨.associatedData, [.names false names]⟩
  | .references entityTypes => ⟨.references, [.list false entityTypes]⟩
  | .useOfPrice mode => ⟨.useOfPrice, [.scalar true (mode.map fun mode => .enum mode.token)]⟩
  | .dataInLanguage locales => ⟨.dataInLanguage, [.list false locales]⟩
  | .parents requirements => ⟨.parents, [.children false requirements]⟩
  | .parentsOfType entityTypes requirements =>
    ⟨.parentsOfType, [.list true entityTypes, .children false requirements]⟩
  | .hierarchyStatistics entityType requirements =>
    ⟨.hierarchyStatistics, [.scalar true entityType, .children false requirements]⟩
  | .facetSummary depth =>
    ⟨.facetSummary, [.scalar false (depth.map fun depth => .enum depth.token)]⟩
  | .facetGroupsConjunction entityType keys =>
    ⟨.facetGroupsConjunction, [.scalar true entityType, .list true keys]⟩
  | .facetGroupsDisjunction entityType keys =>
    ⟨.facetGroupsDisjunction, [.scalar true entityType, .list true keys]⟩
  | .facetGroupsNegation entityType keys =>
    ⟨.facetGroupsNegation, [.scalar true entityType, .list true keys]⟩
  | .attributeHistogram bucketCount names =>
    ⟨.attributeHistogram, [.scalar true bucketCount, .names true names]⟩
  | .priceHistogram bucketCount => ⟨.priceHistogram, [.scalar true bucketCount]⟩

/-! ### What is made of the inputs -/

section
variable {α : Type} {parts : List (Option α)}

theorem present_eq_flatMap (parts : List (Option α)) :
    present parts = parts.flatMap Option.toList := by
  induction parts with
  | nil => rfl
  | cons part parts ih => cases part <;> simp [present, ← ih]

theorem present_eq_nil : present parts = [] ↔ ∀ part ∈ parts, part = none := by
  rw [present, List.filterMap_eq_nil_iff]
  rfl

theorem isBare_iff {isNeeded : Bool} :
    isBare isNeeded parts = true ↔ isNeeded = true ∧ ∀ part ∈ parts, part = none := by
  rw [isBare, Bool.and_eq_true, List.isEmpty_iff, present_eq_nil]

theorem allPresent?_eq_none : allPresent? parts = none ↔ ∃ part ∈ parts, part = none := by
  rw [← Option.isNone_iff_eq_none, ← Option.not_isSome, allPresent?_isSome, Bool.not_eq_true',
    List.all_eq_false]
  simp

end

namespace Fragment

/-- The key of a node is missing unless it is a whole number. -/
theorem nodeKey_eq_none {key : Option Literal} :
    nodeKey key = none ↔ ∀ number, key ≠ some (.int number) := by
  cases key with
  | none => simp [nodeKey]
  | some value => cases value <;> simp [nodeKey, Literal.asInt?]

theorem nodeKey_of_complete {key : Option Literal} {signature : Signature c}
    (complete : ¬signature.Lacks) (taken : .key key ∈ signature.inputs) : nodeKey key = key := by
  obtain ⟨number, rfl⟩ := Signature.exists_of_key complete key taken
  rfl

end Fragment

namespace Recipe

variable (recipe : Recipe c)

def Lacks : Prop :=
  (∃ part ∈ recipe.needed, part = none) ∨
    (recipe.needsValue = true ∧ ∀ part ∈ recipe.values, part = none) ∨
    (recipe.needsChild = true ∧ ∀ part ∈ recipe.children, part = none)

variable {recipe}

/-- **Nothing is made of a recipe exactly if a needed part is missing.** -/
theorem make?_eq_none : recipe.make? = none ↔ recipe.Lacks := by
  unfold make? Lacks
  split
  · rename_i missing
    exact iff_of_true rfl (.inl (allPresent?_eq_none.mp missing))
  · rename_i needed found
    have all : ¬∃ part ∈ recipe.needed, part = none := by
      rw [← allPresent?_eq_none, found]
      exact Option.some_ne_none _
    rw [or_iff_right all, ← isBare_iff, ← isBare_iff, ← Bool.or_eq_true]
    split
    · rename_i bare
      exact iff_of_true rfl bare
    · rename_i full
      exact iff_of_false (Option.some_ne_none _) full

/-- What is made of a recipe without gaps is all that is there. -/
theorem make?_eq_some (complete : ¬recipe.Lacks) : recipe.make? =
    some (.node recipe.kind (present recipe.needed ++ present recipe.values)
      (present recipe.children)) := by
  rw [← make?_eq_none] at complete
  unfold make? at complete ⊢
  split at complete
  · exact absurd rfl complete
  · rename_i needed found
    split at complete
    · exact absurd rfl complete
    · rename_i full
      rw [if_neg full, allPresent?_eq_present found]

variable (recipe)

/-- A recipe for what a signature takes: both miss the same, and are made of the same. -/
structure Follows (signature : Signature c) : Prop where
  kind : recipe.kind = signature.kind
  lacks : recipe.Lacks ↔ signature.Lacks
  literals : ¬signature.Lacks →
    present recipe.needed ++ present recipe.values = signature.literals
  nodes : present recipe.children = signature.nodes

end Recipe

/-- The recipe of a fragment is one for what the fragment takes. -/
theorem Fragment.recipe_follows (fragment : Fragment c) :
    fragment.recipe.Follows fragment.signature where
  kind := by cases fragment <;> rfl
  lacks := by
    cases fragment <;>
      simp [recipe, signature, Recipe.Lacks, Signature.Lacks, Input.Lacking, Input.name,
        Input.names, named, nodeKey_eq_none, @eq_comm _ none]
  literals complete := by
    -- A recipe drops a key that is no whole number. An input keeps it, but is then lacking.
    cases fragment with
    | withinHierarchy key modifiers =>
      have there : nodeKey key = key := nodeKey_of_complete complete (by simp [signature])
      simp [recipe, signature, Signature.literals, Input.literals, present_eq_flatMap, there]
    | withinHierarchyOfType entityType key modifiers =>
      have there : nodeKey key = key := nodeKey_of_complete complete (by simp [signature])
      cases entityType <;>
        simp [recipe, signature, Signature.literals, Input.literals, present_eq_flatMap, there]
    | _ =>
      simp [recipe, signature, Signature.literals, Input.literals, Input.name, Input.names,
        named, present_eq_flatMap, List.map_eq_flatMap]
  nodes := by
    cases fragment <;>
      simp [recipe, signature, Signature.nodes, Input.nodes, Input.name, Input.names,
        present_eq_flatMap]

end CatalogQuery
