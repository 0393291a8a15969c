import CatalogQuery.Constraint.Kind

namespace CatalogQuery

/-- A constraint of a category. -/
inductive Constraint (c : Category)
  | node (kind : Kind c) (arguments : List Literal) (children : List (Constraint c))

namespace Constraint

variable {c : Category}

def kind : Constraint c → Kind c
  | .node kind _ _ => kind

def arguments : Constraint c → List Literal
  | .node _ arguments _ => arguments

def children : Constraint c → List (Constraint c)
  | .node _ _ children => children

def keyword (node : Constraint c) : String := node.kind.keyword

def isContainer (node : Constraint c) : Bool := node.kind.isContainer

def argument? (node : Constraint c) (place : Nat) : Option Literal := node.arguments[place]?

/-- Whether the constraint still constrains anything. -/
def isApplicable (node : Constraint c) : Bool :=
  node.kind.requiredArguments ≤ node.arguments.length
    && !(node.kind.requiresChildren && node.children.isEmpty)

/-- Whether the constraint adds structure beyond its children. -/
def isNecessary (node : Constraint c) : Bool := !node.isContainer || 1 < node.children.length

def withChildren : Constraint c → List (Constraint c) → Constraint c
  | .node kind arguments _, children => .node kind arguments children

mutual

/-- Whether two constraints have the same kinds and equal literals throughout. -/
def equal : Constraint c → Constraint c → Bool
  | .node k₁ a₁ c₁, .node k₂ a₂ c₂ => k₁ == k₂ && Literal.equalAll a₁ a₂ && equalAll c₁ c₂

def equalAll : List (Constraint c) → List (Constraint c) → Bool
  | [], [] => true
  | a :: as, b :: bs => equal a b && equalAll as bs
  | _, _ => false

end

mutual

def size : Constraint c → Nat
  | .node _ _ children => sizeAll children + 1

def sizeAll : List (Constraint c) → Nat
  | [] => 0
  | first :: rest => size first + sizeAll rest

end

def equal? : Option (Constraint c) → Option (Constraint c) → Bool
  | none, none => true
  | some a, some b => a.equal b
  | _, _ => false

end Constraint

structure AnyConstraint where
  category : Category
  constraint : Constraint category

namespace AnyConstraint

def keyword (any : AnyConstraint) : String := any.constraint.keyword

def as? (c : Category) (any : AnyConstraint) : Option (Constraint c) :=
  if h : any.category = c then some (h ▸ any.constraint) else none

/-- Whether two constraints are of one category and equal. -/
def equal (a b : AnyConstraint) : Bool :=
  match b.as? a.category with
  | some other => a.constraint.equal other
  | none => false

@[simp] theorem as?_self {c : Category} (node : Constraint c) : as? c ⟨c, node⟩ = some node := by
  simp [as?]

end AnyConstraint

def Constraint.toAny {c : Category} (node : Constraint c) : AnyConstraint := ⟨c, node⟩

/-- One argument as written: a literal or a nested constraint. -/
inductive Argument
  | literal (value : Literal)
  | constraint (value : AnyConstraint)

namespace Argument

/-- What a shape sees of the argument. -/
def slot : Argument → Slot
  | .literal value => .literal value
  | .constraint value => .constraint value.category

def literals (arguments : List Argument) : List Literal :=
  arguments.filterMap fun
    | .literal value => some value
    | .constraint _ => none

def constraints (arguments : List Argument) : List AnyConstraint :=
  arguments.filterMap fun
    | .literal _ => none
    | .constraint value => some value

end Argument

/-- Whether arguments as written have the layout of a shape. -/
def Shape.fitsArguments (shape : Shape) (arguments : List Argument) : Bool :=
  shape.fits (arguments.map Argument.slot)

end CatalogQuery
