import CatalogQuery.Constraint.Basic

namespace CatalogQuery

/-- Why a constraint or a query cannot be built. -/
inductive ConstructionFault
  | containerAsLeaf
  | leafWithChildren
  | leafWithNested (child : String)
  | foreignChild (child : String) (category expected : Category)
  | misfit (shapes : List Shape)
  | wrongRoot (category : Category) (expected found : String)
  | missingHead
  deriving DecidableEq

def ConstructionFault.message : ConstructionFault → String
  | .containerAsLeaf => "container constraint built as a leaf"
  | .leafWithChildren => "leaf constraint cannot hold child constraints"
  | .leafWithNested child => s!"leaf constraint cannot hold nested constraint `{child}`"
  | .foreignChild child category expected =>
    s!"child `{child}` is a {category.name} constraint, expected {expected.name}"
  | .misfit shapes => s!"arguments do not fit {Shape.describeAll shapes}"
  | .wrongRoot category expected found =>
    s!"{category.name} tree must be rooted in `{expected}`, found `{found}`"
  | .missingHead => "missing entities head"

/-- What cannot be built, and why. -/
structure ConstructionError where
  name : String
  fault : ConstructionFault
  deriving DecidableEq

def ConstructionError.message (e : ConstructionError) : String :=
  s!"Invalid construction of `{e.name}`: {e.fault.message}"

abbrev Built := Except ConstructionError

namespace Constraint

variable {c : Category}

def refuse {α : Type} (kind : Kind c) (fault : ConstructionFault) : Built α :=
  .error ⟨kind.keyword, fault⟩

/-- A constraint without children; the kind may be no container. -/
def leaf (kind : Kind c) (arguments : List Literal) : Built (Constraint c) :=
  if kind.isContainer then refuse kind .containerAsLeaf else .ok (.node kind arguments [])

/-- A constraint with children; the kind has to be a container. -/
def container (kind : Kind c) (arguments : List Literal) (children : List (Constraint c)) :
    Built (Constraint c) :=
  if kind.isContainer then .ok (.node kind arguments children)
  else refuse kind .leafWithChildren

def fitsKind : Constraint c → Bool
  | .node kind arguments children =>
    kind.shapes.any (·.fitsParts c arguments children.length)

/-- A constraint that query text could spell. -/
def checked (kind : Kind c) (arguments : List Literal) (children : List (Constraint c)) :
    Built (Constraint c) := do
  let node ←
    if children.isEmpty && !kind.isContainer then leaf kind arguments
    else container kind arguments children
  if node.fitsKind then return node else refuse kind (.misfit kind.shapes)

/-- The constraints, if all are of one category; otherwise the first that is not
is to blame. -/
def ownChildren (kind : Kind c) : List AnyConstraint → Built (List (Constraint c))
  | [] => .ok []
  | child :: rest => do
    match child.as? c with
    | none => refuse kind (.foreignChild child.keyword child.category c)
    | some own => return own :: (← ownChildren kind rest)

/-- A constraint with children of any category. -/
def ofChildren (kind : Kind c) (arguments : List Literal) (children : List AnyConstraint) :
    Built (Constraint c) :=
  if kind.isContainer then (ownChildren kind children).map (.node kind arguments)
  else
    match children with
    | [] => .ok (.node kind arguments [])
    | child :: _ => refuse kind (.leafWithNested child.keyword)

/-- A constraint from arguments as written: literals become its arguments and
constraints its children, both in their order. -/
def ofArguments (kind : Kind c) (arguments : List Argument) : Built (Constraint c) :=
  ofChildren kind (Argument.literals arguments) (Argument.constraints arguments)

end Constraint
end CatalogQuery
