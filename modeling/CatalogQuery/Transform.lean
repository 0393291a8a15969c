import CatalogQuery.Purify

namespace CatalogQuery

/-- One step of transforming a query. -/
inductive Transform
  | purify (purifier : QueryPurifier)
  /-- Puts a tree in the place of a category; without a tree of that category
  the place is left empty. -/
  | setPart (part : Category) (tree : Option AnyConstraint)

namespace Transform

def name : Transform → String
  | .purify _ => "purify"
  | .setPart .. => "set-part"

/-- The tree that takes the place of a category. -/
def treeFor (part c : Category) (tree : Option AnyConstraint) (old : Option (Constraint c)) :
    Option (Constraint c) :=
  if part = c then tree.bind (AnyConstraint.as? c) else old

/-- The query after a step. A tree with a wrong root leaves the query as it is. -/
def apply (step : Transform) (q : Query) : Query :=
  match step with
  | .purify purifier => purifier.purify q
  | .setPart part tree =>
    match Query.create q.head (treeFor part .filter tree q.filterBy)
        (treeFor part .order tree q.orderBy) (treeFor part .require tree q.require) with
    | .ok changed => changed
    | .error _ => q

def applyAll (steps : List Transform) (q : Query) : Query :=
  steps.foldl (fun q step => step.apply q) q

end Transform
end CatalogQuery
