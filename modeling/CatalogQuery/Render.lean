import CatalogQuery.Literal.Printer
import CatalogQuery.Query.Basic

/-!
# Rendering

A constraint is written as its keyword and, in brackets, its arguments followed
by its children. A layout says what is written around the items of a list that
holds nested constraints; lists of literals alone are always written in one
piece.
-/

namespace CatalogQuery

/-- What is written after the opening bracket, between items and before the
closing bracket of a list with nested constraints, by the depth of the list. -/
structure Layout where
  opening : Nat → List Char
  separator : Nat → List Char
  closing : Nat → List Char

namespace Layout

/-- A single line without blanks. -/
def compact : Layout := ⟨fun _ => [], fun _ => [','], fun _ => []⟩

/-- A new line with a number of indentations. -/
def newLine (indent : List Char) (depth : Nat) : List Char :=
  '\n' :: (List.replicate depth indent).flatten

/-- Each item on a line of its own, one indentation deeper than its list. -/
def indented (indent : List Char) : Layout where
  opening depth := newLine indent (depth + 1)
  separator depth := ',' :: newLine indent (depth + 1)
  closing depth := newLine indent depth

/-- The items of a list with nested constraints, in brackets. -/
def nested (layout : Layout) (depth : Nat) (items : List (List Char)) : List Char :=
  '(' :: layout.opening depth ++ (layout.separator depth).intercalate items
    ++ layout.closing depth ++ [')']

def flat (items : List (List Char)) : List Char := '(' :: [','].intercalate items ++ [')']

end Layout

namespace Constraint

variable {c : Category}

mutual

def render (layout : Layout) (depth : Nat) : Constraint c → List Char
  | .node kind arguments [] => kind.keyword.toList ++ Layout.flat (arguments.map Literal.text)
  | .node kind arguments (child :: rest) =>
    kind.keyword.toList ++ layout.nested depth
      (arguments.map Literal.text ++ render layout (depth + 1) child
        :: renderAll layout (depth + 1) rest)

def renderAll (layout : Layout) (depth : Nat) : List (Constraint c) → List (List Char)
  | [] => []
  | first :: rest => render layout depth first :: renderAll layout depth rest

end

/-- The canonical text of a constraint. -/
def text (node : Constraint c) : List Char := node.render .compact 0

def format (node : Constraint c) : String := String.ofList node.text

end Constraint

def AnyConstraint.text (any : AnyConstraint) : List Char := any.constraint.text

namespace Query

def renderParts (layout : Layout) (q : Query) : List (List Char) :=
  q.head.render layout 1
    :: ((q.filterBy.map (·.render layout 1)).toList
      ++ (q.orderBy.map (·.render layout 1)).toList
      ++ (q.require.map (·.render layout 1)).toList)

def render (layout : Layout) (q : Query) : List Char :=
  keyword.toList ++ layout.nested 0 (q.renderParts layout)

def text (q : Query) : List Char := q.render .compact

def format (q : Query) : String := String.ofList q.text

end Query
end CatalogQuery
