import CatalogQuery.Grammar.Error
import CatalogQuery.Grammar.Raw
import CatalogQuery.Query.Basic

/-!
# Resolving keywords

A raw tree becomes a constraint when its keywords are looked up in the catalog
and the arguments of each are checked against the shapes of the keyword. The
arguments of a call are resolved before the call itself, from left to right, so
the first call in this order that cannot be resolved is the one to report.
-/

namespace CatalogQuery.Grammar

/-- The kind that a keyword names, with its category. -/
def lookup? (keyword : String) : Option ((c : Category) × Kind c) :=
  Category.all.findSome? fun c => (Kind.ofKeyword? c keyword).map fun kind => ⟨c, kind⟩

/-- Where a call stands in a text, and so the rest of the text from there on. -/
structure Site where
  text : List Char
  source : List Char

/-- The place of the keyword of a call. -/
def Site.place (site : Site) : Text.Position := .ofRemaining site.text site.source.length

/-- A constraint of a kind from resolved arguments. -/
def build {c : Category} (site : Site) (kind : Kind c) (arguments : List Argument) :
    Except ParseError AnyConstraint :=
  if kind.shapes.any (·.fitsArguments arguments) then
    match Constraint.ofArguments kind arguments with
    | .ok node => .ok node.toAny
    | .error error => .error (.invalidArguments kind.keyword site.place (.buildable error))
  else .error (.invalidArguments kind.keyword site.place (.shapes kind.shapes))

/-- The constraint that a keyword makes of resolved arguments. -/
def buildCall (site : Site) (keyword : String) (arguments : List Argument) :
    Except ParseError AnyConstraint :=
  match lookup? keyword with
  | some ⟨_, kind⟩ => build site kind arguments
  | none =>
    if keyword = Query.keyword then .error (.nestedQuery site.place)
    else .error (.unknownKeyword keyword site.place)

mutual

/-- Resolves a node that is not the root of a query. -/
def resolve (text : List Char) : RawNode → Except ParseError Argument
  | .literal value => .ok (.literal value)
  | .call keyword source arguments => do
    let arguments ← resolveAll text arguments
    (buildCall ⟨text, source⟩ keyword arguments).map .constraint

def resolveAll (text : List Char) : List RawNode → Except ParseError (List Argument)
  | [] => .ok []
  | first :: rest => do
    let argument ← resolve text first
    let arguments ← resolveAll text rest
    return argument :: arguments

end

/-- The parts of a query that have been found. -/
structure QueryParts where
  head : Option HeadConstraint
  filterBy : Option FilterConstraint
  orderBy : Option OrderConstraint
  require : Option RequireConstraint

namespace QueryParts

def none : QueryParts := ⟨.none, .none, .none, .none⟩

/-- Adds an argument in its place. Nothing comes of one that has no place or
whose place is taken. -/
def add? (parts : QueryParts) : Argument → Option QueryParts
  | .constraint ⟨.head, node⟩ =>
    if parts.head.isNone then some { parts with head := some node } else .none
  | .constraint ⟨.filter, node⟩ =>
    if node.kind = .filterBy ∧ parts.filterBy.isNone then
      some { parts with filterBy := some node }
    else .none
  | .constraint ⟨.order, node⟩ =>
    if node.kind = .orderBy ∧ parts.orderBy.isNone then
      some { parts with orderBy := some node }
    else .none
  | .constraint ⟨.require, node⟩ =>
    if node.kind = .require ∧ parts.require.isNone then
      some { parts with require := some node }
    else .none
  | .literal _ => .none

end QueryParts

/-- The arguments of a query cannot be its parts. -/
def refuseParts {α : Type} (site : Site) : Except ParseError α :=
  .error (.invalidArguments Query.keyword site.place .queryParts)

/-- Resolves the arguments of a query one by one, each before it takes its place. -/
def resolveParts (site : Site) : QueryParts → List RawNode → Except ParseError QueryParts
  | parts, [] => .ok parts
  | parts, first :: rest => do
    let argument ← resolve site.text first
    match parts.add? argument with
    | some parts => resolveParts site parts rest
    | none => refuseParts site

def buildQuery (site : Site) (parts : QueryParts) : Except ParseError Query :=
  match parts.head with
  | none => refuseParts site
  | some head =>
    match Query.create head parts.filterBy parts.orderBy parts.require with
    | .ok query => .ok query
    | .error error => .error (.invalidArguments Query.keyword site.place (.buildable error))

def resolveQuery (site : Site) (arguments : List RawNode) : Except ParseError Query := do
  buildQuery site (← resolveParts site .none arguments)

end CatalogQuery.Grammar
