import CatalogQuery.Text.Blank

/-!
# Positions in a text

A place in a text is counted in lines and columns, both from one. A line ends
at a line feed and nowhere else, and a column counts characters. Offsets count
characters from the start of the text.
-/

namespace CatalogQuery.Text

/-- A line and a column, both counted from one. -/
structure Position where
  line : Nat
  column : Nat
  deriving DecidableEq, Repr

namespace Position

def start : Position := ⟨1, 1⟩

def next (p : Position) (c : Char) : Position :=
  if c = '\n' then ⟨p.line + 1, 1⟩ else ⟨p.line, p.column + 1⟩

/-- The place of an offset; an offset past the end has the place of the end. -/
def ofOffset (text : List Char) (offset : Nat) : Position :=
  (text.take offset).foldl next start

/-- The place from which `remaining` characters are left. -/
def ofRemaining (text : List Char) (remaining : Nat) : Position :=
  ofOffset text (text.length - remaining)

/-- The place of the first character that is not blank, or of the end. -/
def firstToken (text : List Char) : Position := ofOffset text (leadingBlanks text)

def describe (p : Position) : String := s!"line {p.line}, column {p.column}"

end Position
end CatalogQuery.Text
