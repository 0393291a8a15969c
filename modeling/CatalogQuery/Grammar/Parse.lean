import CatalogQuery.Grammar.Resolve

namespace CatalogQuery

inductive Parsed
  | query (query : Query)
  | constraint (constraint : AnyConstraint)
  | literal (literal : Literal)

namespace Parsed

def production : Parsed → Production
  | .query _ => .query
  | .constraint _ => .constraint
  | .literal _ => .literal

def equal : Parsed → Parsed → Bool
  | .query a, .query b => a.equal b
  | .constraint a, .constraint b => a.equal b
  | .literal a, .literal b => a.equal b
  | _, _ => false

end Parsed

namespace Grammar

/-- The error of a place where a text cannot be read. -/
def Failure.toError (text : List Char) (failure : Failure) : ParseError :=
  .unreadable (.ofRemaining text failure.rest.length)
    (if failure.hidden then none else failure.rest.head?)

/-- What a raw tree is when it is the root of a text. -/
def resolveRoot (text : List Char) : RawNode → Except ParseError Parsed
  | .literal value => .ok (.literal value)
  | .call keyword source arguments =>
    if keyword = Query.keyword then (resolveQuery ⟨text, source⟩ arguments).map .query
    else do
      let arguments ← resolveAll text arguments
      (buildCall ⟨text, source⟩ keyword arguments).map .constraint

end Grammar

/-- Parses a query, a constraint or a literal. -/
def parse (text : List Char) : Except ParseError Parsed :=
  match Grammar.readRoot text with
  | .ok root => Grammar.resolveRoot text root
  | .error failure => .error (failure.toError text)

/-- A text of another production than the wanted one. -/
def unexpected {α : Type} (text : List Char) (wanted : Production) (found : Parsed) :
    Except ParseError α :=
  .error (.unexpectedRoot (.production wanted) (.production found.production) (.firstToken text))

def parseQuery (text : List Char) : Except ParseError Query := do
  match ← parse text with
  | .query query => return query
  | other => unexpected text .query other

def parseConstraint (text : List Char) : Except ParseError AnyConstraint := do
  match ← parse text with
  | .constraint node => return node
  | other => unexpected text .constraint other

/-- Parses a text that has to be a constraint of a category. -/
def parseConstraintAs (c : Category) (text : List Char) : Except ParseError (Constraint c) := do
  let node ← parseConstraint text
  match node.as? c with
  | some node => return node
  | none =>
    throw (.unexpectedRoot (.category c) (.constraint node.category node.keyword)
      (.firstToken text))

def parseLiteral (text : List Char) : Except ParseError Literal := do
  match ← parse text with
  | .literal literal => return literal
  | other => unexpected text .literal other

end CatalogQuery
