import CatalogQuery.Constraint.Mode
import CatalogQuery.Fragment.Recipe
import CatalogQuery.Query.Basic

/-!
# Fragments

A program composes a query of fragments, one for each keyword or usual form of
it. The values and nested constraints of a fragment may be missing, and a fragment
that is left without what it needs vanishes.
-/

namespace CatalogQuery

/-- The forms of constraints that a program composes. -/
inductive Fragment : Category → Type
  | entities (entityType : Option Literal) : Fragment .head
  | filterBy (children : List (Option FilterConstraint)) : Fragment .filter
  | and (children : List (Option FilterConstraint)) : Fragment .filter
  | or (children : List (Option FilterConstraint)) : Fragment .filter
  | not (child : Option FilterConstraint) : Fragment .filter
  | userFilter (children : List (Option FilterConstraint)) : Fragment .filter
  | equals (name : String) (value : Option Literal) : Fragment .filter
  | greaterThan (name : String) (value : Option Literal) : Fragment .filter
  | greaterThanEquals (name : String) (value : Option Literal) : Fragment .filter
  | lessThan (name : String) (value : Option Literal) : Fragment .filter
  | lessThanEquals (name : String) (value : Option Literal) : Fragment .filter
  | contains (name : String) (text : Option Literal) : Fragment .filter
  | startsWith (name : String) (text : Option Literal) : Fragment .filter
  | endsWith (name : String) (text : Option Literal) : Fragment .filter
  /-- The attribute is a range that contains the value. -/
  | inRange (name : String) (value : Option Literal) : Fragment .filter
  | between (name : String) (lower upper : Option Literal) : Fragment .filter
  | inSet (name : String) (values : List (Option Literal)) : Fragment .filter
  | isTrue (name : String) : Fragment .filter
  | isFalse (name : String) : Fragment .filter
  | isNull (name : String) : Fragment .filter
  | isNotNull (name : String) : Fragment .filter
  | language (locale : Option Literal) : Fragment .filter
  | primaryKey (keys : List (Option Literal)) : Fragment .filter
  | priceInCurrency (currency : Option Literal) : Fragment .filter
  /-- The first list that prices an entity counts. -/
  | priceInPriceLists (priceLists : List (Option Literal)) : Fragment .filter
  | priceValidIn (moment : Option Literal) : Fragment .filter
  /-- The prices are valid when the query is run. -/
  | priceValidInNow : Fragment .filter
  | priceBetween (lower upper : Option Literal) : Fragment .filter
  | facet (entityType : Option Literal) (keys : List (Option Literal)) : Fragment .filter
  | referenceHavingAttribute (entityType : Option Literal) (filter : Option FilterConstraint) :
    Fragment .filter
  /-- Below a node of the hierarchy that the queried entities form themselves. -/
  | withinHierarchy (key : Option Literal) (modifiers : List (Option FilterConstraint)) :
    Fragment .filter
  /-- Below a node of the hierarchy of an entity type, or of the queried
  entities if the type is missing. -/
  | withinHierarchyOfType (entityType key : Option Literal)
    (modifiers : List (Option FilterConstraint)) : Fragment .filter
  | withinRootHierarchy (modifiers : List (Option FilterConstraint)) : Fragment .filter
  | withinRootHierarchyOfType (entityType : Option Literal)
    (modifiers : List (Option FilterConstraint)) : Fragment .filter
  | directRelation : Fragment .filter
  | excludingRoot : Fragment .filter
  | excluding (keys : List (Option Literal)) : Fragment .filter
  | orderBy (children : List (Option OrderConstraint)) : Fragment .order
  | ascending (name : String) : Fragment .order
  | descending (name : String) : Fragment .order
  | priceAscending : Fragment .order
  | priceDescending : Fragment .order
  | random : Fragment .order
  | referenceAttribute (entityType : Option Literal) (children : List (Option OrderConstraint)) :
    Fragment .order
  | require (children : List (Option RequireConstraint)) : Fragment .require
  /-- Pages are counted from one. -/
  | page (number size : Option Literal) : Fragment .require
  | strip (offset limit : Option Literal) : Fragment .require
  | entityBody : Fragment .require
  | attributes : Fragment .require
  | prices (mode : Option PriceFetchMode) : Fragment .require
  | allPrices : Fragment .require
  /-- No names stand for all associated data. -/
  | associatedData (names : List String) : Fragment .require
  /-- No types stand for all references. -/
  | references (entityTypes : List (Option Literal)) : Fragment .require
  | useOfPrice (mode : Option QueryPriceMode) : Fragment .require
  /-- No locales stand for all languages. -/
  | dataInLanguage (locales : List (Option Literal)) : Fragment .require
  | parents (requirements : List (Option RequireConstraint)) : Fragment .require
  | parentsOfType (entityTypes : List (Option Literal))
    (requirements : List (Option RequireConstraint)) : Fragment .require
  | hierarchyStatistics (entityType : Option Literal)
    (requirements : List (Option RequireConstraint)) : Fragment .require
  | facetSummary (depth : Option FacetStatisticsDepth) : Fragment .require
  | facetGroupsConjunction (entityType : Option Literal) (keys : List (Option Literal)) :
    Fragment .require
  | facetGroupsDisjunction (entityType : Option Literal) (keys : List (Option Literal)) :
    Fragment .require
  | facetGroupsNegation (entityType : Option Literal) (keys : List (Option Literal)) :
    Fragment .require
  | attributeHistogram (bucketCount : Option Literal) (names : List String) : Fragment .require
  | priceHistogram (bucketCount : Option Literal) : Fragment .require

namespace Fragment

/-- The literal of a name, which is never missing. -/
def named (name : String) : Option Literal := some (.string name)

/-- The key of a node in a hierarchy. A literal that is no integer counts as
missing. -/
def nodeKey (key : Option Literal) : Option Literal := key.filter (·.asInt?.isSome)

def recipe {c : Category} : Fragment c → Recipe c
  | .entities entityType => { kind := .entities, needed := [entityType] }
  | .filterBy children => { kind := .filterBy, children, needsChild := true }
  | .and children => { kind := .and, children, needsChild := true }
  | .or children => { kind := .or, children, needsChild := true }
  | .not child => { kind := .not, children := [child], needsChild := true }
  | .userFilter children => { kind := .userFilter, children, needsChild := true }
  | .equals name value => { kind := .equals, needed := [named name, value] }
  | .greaterThan name value => { kind := .greaterThan, needed := [named name, value] }
  | .greaterThanEquals name value => { kind := .greaterThanEquals, needed := [named name, value] }
  | .lessThan name value => { kind := .lessThan, needed := [named name, value] }
  | .lessThanEquals name value => { kind := .lessThanEquals, needed := [named name, value] }
  | .contains name text => { kind := .contains, needed := [named name, text] }
  | .startsWith name text => { kind := .startsWith, needed := [named name, text] }
  | .endsWith name text => { kind := .endsWith, needed := [named name, text] }
  | .inRange name value => { kind := .inRange, needed := [named name, value] }
  | .between name lower upper => { kind := .between, needed := [named name, lower, upper] }
  | .inSet name values => { kind := .inSet, needed := [named name], values, needsValue := true }
  | .isTrue name => { kind := .isTrue, needed := [named name] }
  | .isFalse name => { kind := .isFalse, needed := [named name] }
  | .isNull name => { kind := .isNull, needed := [named name] }
  | .isNotNull name => { kind := .isNotNull, needed := [named name] }
  | .language locale => { kind := .language, needed := [locale] }
  | .primaryKey keys => { kind := .primaryKey, values := keys, needsValue := true }
  | .priceInCurrency currency => { kind := .priceInCurrency, needed := [currency] }
  | .priceInPriceLists priceLists =>
    { kind := .priceInPriceLists, values := priceLists, needsValue := true }
  | .priceValidIn moment => { kind := .priceValidIn, needed := [moment] }
  | .priceValidInNow => { kind := .priceValidIn }
  | .priceBetween lower upper => { kind := .priceBetween, needed := [lower, upper] }
  | .facet entityType keys =>
    { kind := .facet, needed := [entityType], values := keys, needsValue := true }
  | .referenceHavingAttribute entityType filter =>
    { kind := .referenceHavingAttribute, needed := [entityType], children := [filter],
      needsChild := true }
  | .withinHierarchy key modifiers =>
    { kind := .withinHierarchy, needed := [nodeKey key], children := modifiers }
  | .withinHierarchyOfType entityType key modifiers =>
    { kind := .withinHierarchy, needed := entityType.toList.map some ++ [nodeKey key],
      children := modifiers }
  | .withinRootHierarchy modifiers => { kind := .withinRootHierarchy, children := modifiers }
  | .withinRootHierarchyOfType entityType modifiers =>
    { kind := .withinRootHierarchy, values := [entityType], children := modifiers }
  | .directRelation => { kind := .directRelation }
  | .excludingRoot => { kind := .excludingRoot }
  | .excluding keys => { kind := .excluding, values := keys, needsValue := true }
  | .orderBy children => { kind := .orderBy, children, needsChild := true }
  | .ascending name => { kind := .ascending, needed := [named name] }
  | .descending name => { kind := .descending, needed := [named name] }
  | .priceAscending => { kind := .priceAscending }
  | .priceDescending => { kind := .priceDescending }
  | .random => { kind := .random }
  | .referenceAttribute entityType children =>
    { kind := .referenceAttribute, needed := [entityType], children, needsChild := true }
  | .require children => { kind := .require, children, needsChild := true }
  | .page number size => { kind := .page, needed := [number, size] }
  | .strip offset limit => { kind := .strip, needed := [offset, limit] }
  | .entityBody => { kind := .entityBody }
  | .attributes => { kind := .attributes }
  | .prices mode => { kind := .prices, values := [mode.map fun mode => .enum mode.token] }
  | .allPrices => { kind := .prices, values := [some (.enum PriceFetchMode.all.token)] }
  | .associatedData names => { kind := .associatedData, values := names.map named }
  | .references entityTypes => { kind := .references, values := entityTypes }
  | .useOfPrice mode =>
    { kind := .useOfPrice, needed := [mode.map fun mode => .enum mode.token] }
  | .dataInLanguage locales => { kind := .dataInLanguage, values := locales }
  | .parents requirements => { kind := .parents, children := requirements }
  | .parentsOfType entityTypes requirements =>
    { kind := .parentsOfType, values := entityTypes, needsValue := true, children := requirements }
  | .hierarchyStatistics entityType requirements =>
    { kind := .hierarchyStatistics, needed := [entityType], children := requirements }
  | .facetSummary depth =>
    { kind := .facetSummary, values := [depth.map fun depth => .enum depth.token] }
  | .facetGroupsConjunction entityType keys =>
    { kind := .facetGroupsConjunction, needed := [entityType], values := keys, needsValue := true }
  | .facetGroupsDisjunction entityType keys =>
    { kind := .facetGroupsDisjunction, needed := [entityType], values := keys, needsValue := true }
  | .facetGroupsNegation entityType keys =>
    { kind := .facetGroupsNegation, needed := [entityType], values := keys, needsValue := true }
  | .attributeHistogram bucketCount names =>
    { kind := .attributeHistogram, needed := [bucketCount], values := names.map named,
      needsValue := true }
  | .priceHistogram bucketCount => { kind := .priceHistogram, needed := [bucketCount] }

/-- The constraint of a fragment, unless it vanishes. -/
def make? {c : Category} (fragment : Fragment c) : Option (Constraint c) := fragment.recipe.make?

end Fragment

/-- The content of a fully loaded entity, followed by more of a require tree. -/
def fullEntityAnd (extras : List (Option RequireConstraint)) : List RequireConstraint :=
  present
    ([.entityBody, .attributes, .associatedData [], .allPrices, .references [], .dataInLanguage []].map
      Fragment.make? ++ extras)

def fullEntity : List RequireConstraint := fullEntityAnd []

end CatalogQuery
