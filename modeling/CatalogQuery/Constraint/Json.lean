import CatalogQuery.Constraint.Construction
import CatalogQuery.Constraint.Mode
import CatalogQuery.Literal.Json

namespace CatalogQuery

open Json (Decoded wanted accepted keepIf mapCause)

/-- Why a well-formed value is refused as a constraint or a query. -/
inductive QueryError
  | literal (error : LiteralError)
  | construction (error : ConstructionError)
  deriving DecidableEq

def QueryError.message : QueryError → String
  | .literal error => error.message
  | .construction error => error.message

namespace Constraint

variable {c : Category}

/-- A member that is left out if its list is empty. -/
def listMember (name : String) (items : List Json) : List (String × Json) :=
  if items.isEmpty then [] else [(name, .array items)]

mutual

def toJson : Constraint c → Json
  | .node kind arguments children =>
    .object (listMember "arguments" (arguments.map Literal.toJson)
      ++ listMember "children" (listToJson children) ++ [("kind", .string kind.keyword)])

def listToJson : List (Constraint c) → List Json
  | [] => []
  | first :: rest => toJson first :: listToJson rest

end

/-- The kind of a category that a stored constraint names. -/
def kindOfJson? (c : Category) (json : Json) : Option (Kind c) :=
  ((json.field? 0 "kind").bind Json.word?).bind (Kind.ofKeyword? c)

/-- The arguments of a stored constraint; they may be left out. -/
def argumentsOfJson (json : Json) : Decoded QueryError (List Literal) :=
  match json.field? 1 "arguments" with
  | none => .ok []
  | some value => mapCause .literal (Literal.arrayOfJson value)

/-- A constraint from what was read of its parts. The parts of an object count in
the order of their names, those of a list in the order of their places, so that
the first fault in that order is the one to report. -/
def ofParts (json : Json) (kind : Decoded QueryError (Kind c))
    (arguments : Decoded QueryError (List Literal))
    (children : Decoded QueryError (List (Constraint c))) : Decoded QueryError (Constraint c) := do
  if json.isPositional then
    let kind ← kind
    let arguments ← arguments
    let children ← children
    let _ ← keepIf (json.isRecord 3) ()
    mapCause .construction (accepted (Constraint.checked kind arguments children))
  else
    let arguments ← arguments
    let children ← children
    let kind ← kind
    mapCause .construction (accepted (Constraint.checked kind arguments children))

mutual

def ofJson (json : Json) : Decoded QueryError (Constraint c) :=
  match h : json.field? 2 "children" with
  | none => ofParts json (wanted (kindOfJson? c json)) (argumentsOfJson json) (.ok [])
  | some value =>
    have := Json.sizeOf_field? h
    ofParts json (wanted (kindOfJson? c json)) (argumentsOfJson json) (arrayOfJson value)
  termination_by sizeOf json

def arrayOfJson (json : Json) : Decoded QueryError (List (Constraint c)) :=
  match json with
  | .array items => listOfJson items
  | _ => .error .malformed
  termination_by sizeOf json

def listOfJson (items : List Json) : Decoded QueryError (List (Constraint c)) :=
  match items with
  | [] => .ok []
  | item :: rest => do
    let first ← ofJson item
    let others ← listOfJson rest
    return first :: others
  termination_by sizeOf items

end

end Constraint

namespace AnyConstraint

/-- The stored form of a constraint with its category. -/
def toJson (any : AnyConstraint) : Json :=
  .object [("category", .string any.category.name), ("constraint", any.constraint.toJson)]

def categoryOfJson? (json : Json) : Option Category :=
  (json.tag? "category").bind Category.ofName?

def ofJson (json : Json) : Decoded QueryError AnyConstraint := do
  let c ← wanted (categoryOfJson? json)
  let value ← wanted (json.field? 1 "constraint")
  let node ← Constraint.ofJson (c := c) value
  keepIf (json.isRecord 2) ⟨c, node⟩

end AnyConstraint
end CatalogQuery
