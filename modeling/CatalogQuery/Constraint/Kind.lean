import CatalogQuery.Constraint.Shape

/-!
# The catalog of constraints

Each constraint is of one of sixty kinds, and each kind belongs to a category.
The catalog says for a kind

* the keyword that names it in query text;
* whether it holds nested constraints, and whether it is of use without any;
* how many literals it needs to be of use;
* whether one with a single child says no more than the child alone;
* the shapes its arguments may have, the richest first.
-/

namespace CatalogQuery

inductive Kind : Category → Type
  | entities : Kind .head
  | filterBy : Kind .filter
  | and : Kind .filter
  | or : Kind .filter
  | not : Kind .filter
  | userFilter : Kind .filter
  | equals : Kind .filter
  | greaterThan : Kind .filter
  | greaterThanEquals : Kind .filter
  | lessThan : Kind .filter
  | lessThanEquals : Kind .filter
  | between : Kind .filter
  | inSet : Kind .filter
  | contains : Kind .filter
  | startsWith : Kind .filter
  | endsWith : Kind .filter
  | inRange : Kind .filter
  | isTrue : Kind .filter
  | isFalse : Kind .filter
  | isNull : Kind .filter
  | isNotNull : Kind .filter
  | language : Kind .filter
  | primaryKey : Kind .filter
  | priceInCurrency : Kind .filter
  | priceInPriceLists : Kind .filter
  | priceValidIn : Kind .filter
  | priceBetween : Kind .filter
  | facet : Kind .filter
  | referenceHavingAttribute : Kind .filter
  | withinHierarchy : Kind .filter
  | withinRootHierarchy : Kind .filter
  | directRelation : Kind .filter
  | excludingRoot : Kind .filter
  | excluding : Kind .filter
  | orderBy : Kind .order
  | ascending : Kind .order
  | descending : Kind .order
  | priceAscending : Kind .order
  | priceDescending : Kind .order
  | random : Kind .order
  | referenceAttribute : Kind .order
  | require : Kind .require
  | page : Kind .require
  | strip : Kind .require
  | entityBody : Kind .require
  | attributes : Kind .require
  | prices : Kind .require
  | associatedData : Kind .require
  | references : Kind .require
  | useOfPrice : Kind .require
  | dataInLanguage : Kind .require
  | parents : Kind .require
  | parentsOfType : Kind .require
  | facetSummary : Kind .require
  | facetGroupsConjunction : Kind .require
  | facetGroupsDisjunction : Kind .require
  | facetGroupsNegation : Kind .require
  | attributeHistogram : Kind .require
  | priceHistogram : Kind .require
  | hierarchyStatistics : Kind .require
  deriving DecidableEq, Repr

/-- What the catalog says about a kind. -/
structure CatalogEntry where
  keyword : String
  isContainer : Bool
  /-- Whether one with a single child may be replaced by the child. -/
  isCollapsible : Bool
  /-- Whether one without children is of no use. -/
  requiresChildren : Bool
  /-- How many literals one needs to be of use. -/
  requiredArguments : Nat
  shapes : List Shape

namespace CatalogEntry

/-- A kind without nested constraints. -/
def leaf (keyword : String) (requiredArguments : Nat) (shapes : List Shape) : CatalogEntry :=
  ⟨keyword, false, false, false, requiredArguments, shapes⟩

/-- A kind that needs nested constraints. -/
def container (keyword : String) (requiredArguments : Nat) (shapes : List Shape) : CatalogEntry :=
  ⟨keyword, true, false, true, requiredArguments, shapes⟩

/-- A kind that may hold nested constraints and is of use without them. -/
def openContainer (keyword : String) (requiredArguments : Nat) (shapes : List Shape) :
    CatalogEntry :=
  ⟨keyword, true, false, false, requiredArguments, shapes⟩

/-- A kind that needs nested constraints and only joins them. -/
def junction (keyword : String) (shapes : List Shape) : CatalogEntry :=
  ⟨keyword, true, true, true, 0, shapes⟩

end CatalogEntry

namespace Kind

open CatalogEntry

def entry {c : Category} : Kind c → CatalogEntry
  | .entities => leaf "entities" 1 [.value]
  | .filterBy => container "filterBy" 0 [.filterList]
  | .and => junction "and" [.filterList]
  | .or => junction "or" [.filterList]
  | .not => container "not" 0 [.singleFilter]
  | .userFilter => junction "userFilter" [.filterList]
  | .equals => leaf "equals" 2 [.nameWithValue]
  | .greaterThan => leaf "greaterThan" 2 [.nameWithValue]
  | .greaterThanEquals => leaf "greaterThanEquals" 2 [.nameWithValue]
  | .lessThan => leaf "lessThan" 2 [.nameWithValue]
  | .lessThanEquals => leaf "lessThanEquals" 2 [.nameWithValue]
  | .between => leaf "between" 3 [.nameWithBetweenValues]
  | .inSet => leaf "inSet" 2 [.nameWithValueList]
  | .contains => leaf "contains" 2 [.nameWithValue]
  | .startsWith => leaf "startsWith" 2 [.nameWithValue]
  | .endsWith => leaf "endsWith" 2 [.nameWithValue]
  | .inRange => leaf "inRange" 2 [.nameWithValue]
  | .isTrue => leaf "isTrue" 1 [.name]
  | .isFalse => leaf "isFalse" 1 [.name]
  | .isNull => leaf "isNull" 1 [.name]
  | .isNotNull => leaf "isNotNull" 1 [.name]
  | .language => leaf "language" 1 [.value]
  | .primaryKey => leaf "primaryKey" 1 [.valueList]
  | .priceInCurrency => leaf "priceInCurrency" 1 [.value]
  | .priceInPriceLists => leaf "priceInPriceLists" 1 [.valueList]
  | .priceValidIn => leaf "priceValidIn" 0 [.value, .empty]
  | .priceBetween => leaf "priceBetween" 2 [.betweenValues]
  | .facet => leaf "facet" 2 [.entityTypeWithValueList]
  | .referenceHavingAttribute =>
    container "referenceHavingAttribute" 1 [.entityTypeWithFilter]
  | .withinHierarchy => openContainer "withinHierarchy" 1 [.hierarchyWithin]
  | .withinRootHierarchy => openContainer "withinRootHierarchy" 0 [.hierarchyWithinRoot]
  | .directRelation => leaf "directRelation" 0 [.empty]
  | .excludingRoot => leaf "excludingRoot" 0 [.empty]
  | .excluding => leaf "excluding" 1 [.valueList]
  | .orderBy => container "orderBy" 0 [.orderList]
  | .ascending => leaf "ascending" 1 [.name]
  | .descending => leaf "descending" 1 [.name]
  | .priceAscending => leaf "priceAscending" 0 [.empty]
  | .priceDescending => leaf "priceDescending" 0 [.empty]
  | .random => leaf "random" 0 [.empty]
  | .referenceAttribute => container "referenceAttribute" 1 [.entityTypeWithOrderList]
  | .require => container "require" 0 [.requireList]
  | .page => leaf "page" 2 [.betweenValues]
  | .strip => leaf "strip" 2 [.betweenValues]
  | .entityBody => leaf "entityBody" 0 [.empty]
  | .attributes => leaf "attributes" 0 [.empty]
  | .prices => leaf "prices" 0 [.value, .empty]
  | .associatedData => leaf "associatedData" 0 [.nameList, .empty]
  | .references => leaf "references" 0 [.valueList, .empty]
  | .useOfPrice => leaf "useOfPrice" 1 [.value]
  | .dataInLanguage => leaf "dataInLanguage" 0 [.valueList, .empty]
  | .parents => openContainer "parents" 0 [.requireList, .empty]
  | .parentsOfType => openContainer "parentsOfType" 1 [.entityTypesWithRequireList]
  | .facetSummary => leaf "facetSummary" 0 [.value, .empty]
  | .facetGroupsConjunction => leaf "facetGroupsConjunction" 2 [.entityTypeWithValueList]
  | .facetGroupsDisjunction => leaf "facetGroupsDisjunction" 2 [.entityTypeWithValueList]
  | .facetGroupsNegation => leaf "facetGroupsNegation" 2 [.entityTypeWithValueList]
  | .attributeHistogram => leaf "attributeHistogram" 2 [.valueWithNameList]
  | .priceHistogram => leaf "priceHistogram" 1 [.value]
  | .hierarchyStatistics =>
    openContainer "hierarchyStatistics" 1 [.entityTypeWithRequireList, .value]

variable {c : Category}

def keyword (kind : Kind c) : String := kind.entry.keyword

def isContainer (kind : Kind c) : Bool := kind.entry.isContainer

/-- Whether one with a single child may be replaced by the child. -/
def isCollapsible (kind : Kind c) : Bool := kind.entry.isCollapsible

/-- Whether one without children is of no use. -/
def requiresChildren (kind : Kind c) : Bool := kind.entry.requiresChildren

/-- How many literals one needs to be of use. -/
def requiredArguments (kind : Kind c) : Nat := kind.entry.requiredArguments

def shapes (kind : Kind c) : List Shape := kind.entry.shapes

/-- Every kind of a category, in the order of the catalog. -/
def all : (c : Category) → List (Kind c)
  | .head => [.entities]
  | .filter =>
    [.filterBy, .and, .or, .not, .userFilter, .equals, .greaterThan, .greaterThanEquals,
      .lessThan, .lessThanEquals, .between, .inSet, .contains, .startsWith, .endsWith, .inRange,
      .isTrue, .isFalse, .isNull, .isNotNull, .language, .primaryKey, .priceInCurrency,
      .priceInPriceLists, .priceValidIn, .priceBetween, .facet, .referenceHavingAttribute,
      .withinHierarchy, .withinRootHierarchy, .directRelation, .excludingRoot, .excluding]
  | .order =>
    [.orderBy, .ascending, .descending, .priceAscending, .priceDescending, .random,
      .referenceAttribute]
  | .require =>
    [.require, .page, .strip, .entityBody, .attributes, .prices, .associatedData, .references,
      .useOfPrice, .dataInLanguage, .parents, .parentsOfType, .facetSummary,
      .facetGroupsConjunction, .facetGroupsDisjunction, .facetGroupsNegation,
      .attributeHistogram, .priceHistogram, .hierarchyStatistics]

def ofKeyword? (c : Category) (keyword : String) : Option (Kind c) :=
  (all c).find? (·.keyword == keyword)

/-- The container that is the root of a category's tree in a query. -/
def root? : (c : Category) → Option (Kind c)
  | .head => none
  | .filter => some .filterBy
  | .order => some .orderBy
  | .require => some .require

/-- Whether the first argument names an attribute that is tested. -/
def isAttributeTest : Kind .filter → Bool
  | .equals | .greaterThan | .greaterThanEquals | .lessThan | .lessThanEquals | .between
  | .inSet | .contains | .startsWith | .endsWith | .inRange | .isTrue | .isFalse | .isNull
  | .isNotNull => true
  | _ => false

/-- Whether an attribute is compared with a single value. -/
def isComparison : Kind .filter → Bool
  | .equals | .greaterThan | .greaterThanEquals | .lessThan | .lessThanEquals | .contains
  | .startsWith | .endsWith | .inRange => true
  | _ => false

/-- Whether facet groups are named. -/
def isFacetGroups : Kind .require → Bool
  | .facetGroupsConjunction | .facetGroupsDisjunction | .facetGroupsNegation => true
  | _ => false

/-- A keyword names its kind. -/
theorem ofKeyword?_keyword (kind : Kind c) : ofKeyword? c kind.keyword = some kind := by
  cases kind <;> decide

end Kind
end CatalogQuery
