import CatalogQuery.Constraint.Accessors
import CatalogQuery.Constraint.Construction

namespace CatalogQuery

structure Query where
  head : HeadConstraint
  filterBy : Option FilterConstraint
  orderBy : Option OrderConstraint
  require : Option RequireConstraint

namespace Query

def keyword : String := "query"

/-- Checks that a tree, if there is one, has a root of the expected kind. -/
def checkRoot {c : Category} (expected : Kind c) : Option (Constraint c) → Built Unit
  | none => .ok ()
  | some tree =>
    if tree.kind = expected then .ok ()
    else .error ⟨keyword, .wrongRoot c expected.keyword tree.keyword⟩

def create (head : HeadConstraint) (filterBy : Option FilterConstraint)
    (orderBy : Option OrderConstraint) (require : Option RequireConstraint) : Built Query := do
  checkRoot .filterBy filterBy
  checkRoot .orderBy orderBy
  checkRoot .require require
  return ⟨head, filterBy, orderBy, require⟩

/-- A query from parts of which the head may be missing as well, but then there
is no query. -/
def assemble (head : Option HeadConstraint) (filterBy : Option FilterConstraint)
    (orderBy : Option OrderConstraint) (require : Option RequireConstraint) : Built Query :=
  match head with
  | some head => create head filterBy orderBy require
  | none => .error ⟨keyword, .missingHead⟩

/-- The type of the queried entities. -/
def entityType? (q : Query) : Option Literal := q.head.entityType?

/-- Whether two queries have equal parts. -/
def equal (a b : Query) : Bool :=
  a.head.equal b.head && Constraint.equal? a.filterBy b.filterBy
    && Constraint.equal? a.orderBy b.orderBy && Constraint.equal? a.require b.require

end Query
end CatalogQuery
