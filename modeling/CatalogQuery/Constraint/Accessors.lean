import CatalogQuery.Constraint.Basic
import CatalogQuery.Constraint.Mode

namespace CatalogQuery

/-- A constraint that names the queried entities. -/
abbrev HeadConstraint := Constraint .head

/-- A constraint that restricts the entities. -/
abbrev FilterConstraint := Constraint .filter

/-- A constraint that sorts the entities. -/
abbrev OrderConstraint := Constraint .order

/-- A constraint that says what is fetched with each entity. -/
abbrev RequireConstraint := Constraint .require

namespace Constraint

variable {c : Category}

def stringAt? (node : Constraint c) (place : Nat) : Option String :=
  (node.argument? place).bind Literal.asString?

def intAt? (node : Constraint c) (place : Nat) : Option Int64 :=
  (node.argument? place).bind Literal.asInt?

/-- The whole numbers from a place on; other literals are passed over. -/
def intsFrom (node : Constraint c) (place : Nat) : List Int64 :=
  (node.arguments.drop place).filterMap Literal.asInt?

/-- The strings from a place on; other literals are passed over. -/
def stringsFrom (node : Constraint c) (place : Nat) : List String :=
  (node.arguments.drop place).filterMap Literal.asString?

/-- The arguments at a place and at the next one. -/
def pairAt? (node : Constraint c) (place : Nat) : Option (Literal × Literal) :=
  match node.argument? place, node.argument? (place + 1) with
  | some first, some second => some (first, second)
  | _, _ => none

end Constraint

namespace HeadConstraint

def entityType? (node : HeadConstraint) : Option Literal := node.argument? 0

end HeadConstraint

namespace FilterConstraint

def attributeName? (node : FilterConstraint) : Option String :=
  if node.kind.isAttributeTest then node.stringAt? 0 else none

def attributeValue? (node : FilterConstraint) : Option Literal :=
  if node.kind.isComparison then node.argument? 1 else none

/-- The values of `inSet`. -/
def attributeValues (node : FilterConstraint) : List Literal :=
  match node.kind with
  | .inSet => node.arguments.drop 1
  | _ => []

/-- The bounds of `between` and `priceBetween`. -/
def bounds? (node : FilterConstraint) : Option (Literal × Literal) :=
  match node.kind with
  | .between => node.pairAt? 1
  | .priceBetween => node.pairAt? 0
  | _ => none

/-- The entity type that a facet, a reference or a hierarchy is about. A hierarchy
without one is that of the queried entities. -/
def entityType? (node : FilterConstraint) : Option Literal :=
  match node.kind with
  | .facet => node.argument? 0
  | .referenceHavingAttribute => node.argument? 0
  | .withinHierarchy => if node.arguments.length = 2 then node.argument? 0 else none
  | .withinRootHierarchy => node.argument? 0
  | _ => none

/-- The hierarchy node of `withinHierarchy`. -/
def hierarchyKey? (node : FilterConstraint) : Option Int64 :=
  match node.kind with
  | .withinHierarchy => node.arguments.getLast?.bind Literal.asInt?
  | _ => none

/-- The keys listed by `primaryKey`, `excluding` and `facet`. -/
def ids (node : FilterConstraint) : List Int64 :=
  match node.kind with
  | .primaryKey => node.intsFrom 0
  | .excluding => node.intsFrom 0
  | .facet => node.intsFrom 1
  | _ => []

/-- The price lists of `priceInPriceLists`, the preferred first. -/
def priceLists (node : FilterConstraint) : List Literal :=
  match node.kind with
  | .priceInPriceLists => node.arguments
  | _ => []

/-- The instant of `priceValidIn`; without one the time of evaluation is meant. -/
def validIn? (node : FilterConstraint) : Option ZonedDateTime :=
  match node.kind with
  | .priceValidIn => (node.argument? 0).bind Literal.asZoned?
  | _ => none

/-- The bounds of `priceBetween` as decimals. -/
def priceBounds? (node : FilterConstraint) : Option (Decimal × Decimal) :=
  match node.kind with
  | .priceBetween =>
    match (node.argument? 0).bind Literal.asDecimal?, (node.argument? 1).bind Literal.asDecimal? with
    | some lower, some upper => some (lower, upper)
    | _, _ => none
  | _ => none

end FilterConstraint

namespace OrderConstraint

def attributeName? (node : OrderConstraint) : Option String :=
  match node.kind with
  | .ascending => node.stringAt? 0
  | .descending => node.stringAt? 0
  | _ => none

/-- The referenced entity type. -/
def entityType? (node : OrderConstraint) : Option Literal :=
  match node.kind with
  | .referenceAttribute => node.argument? 0
  | _ => none

def isDescending (node : OrderConstraint) : Bool :=
  match node.kind with
  | .descending => true
  | .priceDescending => true
  | _ => false

end OrderConstraint

namespace RequireConstraint

/-- Two whole numbers of a constraint of a kind. -/
def intPair? (kind : Kind .require) (node : RequireConstraint) : Option (Int64 × Int64) :=
  if node.kind = kind then
    match node.intAt? 0, node.intAt? 1 with
    | some first, some second => some (first, second)
    | _, _ => none
  else none

def page? : RequireConstraint → Option (Int64 × Int64) := intPair? .page

def strip? : RequireConstraint → Option (Int64 × Int64) := intPair? .strip

/-- The mode of `prices`. -/
def fetchMode? (node : RequireConstraint) : Option PriceFetchMode :=
  match node.kind with
  | .prices => (node.argument? 0).elim (some .usual) PriceFetchMode.ofLiteral?
  | _ => none

/-- The depth of `facetSummary`. -/
def statisticsDepth? (node : RequireConstraint) : Option FacetStatisticsDepth :=
  match node.kind with
  | .facetSummary => (node.argument? 0).elim (some .usual) FacetStatisticsDepth.ofLiteral?
  | _ => none

/-- The mode of `useOfPrice`. -/
def priceMode? (node : RequireConstraint) : Option QueryPriceMode :=
  match node.kind with
  | .useOfPrice => (node.argument? 0).bind QueryPriceMode.ofLiteral?
  | _ => none

def bucketCount? (node : RequireConstraint) : Option Int64 :=
  match node.kind with
  | .attributeHistogram => node.intAt? 0
  | .priceHistogram => node.intAt? 0
  | _ => none

/-- The attributes of `attributeHistogram` and the data of `associatedData`. -/
def names (node : RequireConstraint) : List String :=
  match node.kind with
  | .attributeHistogram => node.stringsFrom 1
  | .associatedData => node.stringsFrom 0
  | _ => []

/-- The entity type of facet groups and hierarchy statistics. -/
def entityType? (node : RequireConstraint) : Option Literal :=
  if node.kind.isFacetGroups ∨ node.kind = .hierarchyStatistics then node.argument? 0 else none

/-- The entity types of `references` and `parentsOfType`. -/
def entityTypes (node : RequireConstraint) : List Literal :=
  match node.kind with
  | .references => node.arguments
  | .parentsOfType => node.arguments
  | _ => []

/-- The groups of facet groups. -/
def groupIds (node : RequireConstraint) : List Int64 :=
  if node.kind.isFacetGroups then node.intsFrom 1 else []

def languages (node : RequireConstraint) : List Locale :=
  match node.kind with
  | .dataInLanguage => node.arguments.filterMap Literal.asLocale?
  | _ => []

/-- Whether a kind that lists what to fetch lists nothing, and so fetches all. -/
def isAllRequested (node : RequireConstraint) : Bool :=
  match node.kind with
  | .associatedData => node.arguments.isEmpty
  | .references => node.arguments.isEmpty
  | .dataInLanguage => node.arguments.isEmpty
  | _ => false

end RequireConstraint
end CatalogQuery
