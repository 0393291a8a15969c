import CatalogQuery.Literal.Basic

namespace CatalogQuery

/-- Which prices are fetched with an entity. -/
inductive PriceFetchMode
  | none
  /-- Only prices that pass the price filter. -/
  | respectingFilter
  | all
  deriving DecidableEq, Repr

namespace PriceFetchMode

def token : PriceFetchMode → EnumToken
  | .none => ⟨"NONE", by decide⟩
  | .respectingFilter => ⟨"RESPECTING_FILTER", by decide⟩
  | .all => ⟨"ALL", by decide⟩

def ofToken? (token : String) : Option PriceFetchMode :=
  [.none, .respectingFilter, .all].find? (·.token.word == token)

def ofLiteral? (literal : Literal) : Option PriceFetchMode :=
  literal.asEnum?.bind fun token => ofToken? token.word

/-- The mode of a constraint that names none. -/
def usual : PriceFetchMode := .respectingFilter

end PriceFetchMode

/-- How much a facet summary computes. -/
inductive FacetStatisticsDepth
  /-- Counts of matching entities only. -/
  | counts
  /-- Counts and what selecting each facet would change. -/
  | impact
  deriving DecidableEq, Repr

namespace FacetStatisticsDepth

def token : FacetStatisticsDepth → EnumToken
  | .counts => ⟨"COUNTS", by decide⟩
  | .impact => ⟨"IMPACT", by decide⟩

def ofToken? (token : String) : Option FacetStatisticsDepth :=
  [.counts, .impact].find? (·.token.word == token)

def ofLiteral? (literal : Literal) : Option FacetStatisticsDepth :=
  literal.asEnum?.bind fun token => ofToken? token.word

/-- The mode of a constraint that names none. -/
def usual : FacetStatisticsDepth := .counts

end FacetStatisticsDepth

/-- Whether prices are compared with tax. -/
inductive QueryPriceMode
  | withTax
  | withoutTax
  deriving DecidableEq, Repr

namespace QueryPriceMode

def token : QueryPriceMode → EnumToken
  | .withTax => ⟨"WITH_TAX", by decide⟩
  | .withoutTax => ⟨"WITHOUT_TAX", by decide⟩

def ofToken? (token : String) : Option QueryPriceMode :=
  [.withTax, .withoutTax].find? (·.token.word == token)

def ofLiteral? (literal : Literal) : Option QueryPriceMode :=
  literal.asEnum?.bind fun token => ofToken? token.word

end QueryPriceMode

end CatalogQuery
