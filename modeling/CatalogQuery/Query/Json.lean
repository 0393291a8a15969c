import CatalogQuery.Constraint.Json
import CatalogQuery.Query.Basic

namespace CatalogQuery.Query

open Json (Decoded wanted accepted keepIf mapCause)

/-- A member that is left out if the tree is not there. -/
def treeMember {c : Category} (name : String) (tree : Option (Constraint c)) :
    List (String × Json) :=
  (tree.map fun tree => (name, tree.toJson)).toList

def toJson (q : Query) : Json :=
  .object (treeMember "filter_by" q.filterBy ++ ("head", q.head.toJson)
    :: treeMember "order_by" q.orderBy ++ treeMember "require" q.require)

/-- A tree of a stored query; it may be left out or `null`. -/
def treeOfJson {c : Category} (json : Option Json) : Decoded QueryError (Option (Constraint c)) :=
  match json with
  | none => .ok none
  | some .null => .ok none
  | some value => (Constraint.ofJson value).map some

def headOfJson (json : Json) : Decoded QueryError HeadConstraint := do
  Constraint.ofJson (← wanted (json.field? 0 "head"))

/-- The query of a stored form. The parts of an object count in the order of their
names, those of a list in the order of their places; a missing head is missed
after all other parts. -/
def ofJson (json : Json) : Decoded QueryError Query := do
  let filterBy := treeOfJson (json.field? 1 "filter_by")
  let orderBy := treeOfJson (json.field? 2 "order_by")
  let require := treeOfJson (json.field? 3 "require")
  let head := headOfJson json
  if json.isPositional then
    let head ← head
    let filterBy ← filterBy
    let orderBy ← orderBy
    let require ← require
    let _ ← keepIf (json.isRecord 4) ()
    mapCause .construction (accepted (create head filterBy orderBy require))
  else
    let filterBy ← filterBy
    if (json.field? 0 "head").isSome then
      let _ ← head
    let orderBy ← orderBy
    let require ← require
    let head ← head
    mapCause .construction (accepted (create head filterBy orderBy require))

end CatalogQuery.Query
