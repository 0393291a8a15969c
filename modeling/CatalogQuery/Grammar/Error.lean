import CatalogQuery.Constraint.Construction
import CatalogQuery.Text.Position

namespace CatalogQuery

/-- What a text as a whole may be. -/
inductive Production
  | query
  | constraint
  | literal
  deriving DecidableEq, Repr

def Production.name : Production → String
  | .query => "query"
  | .constraint => "constraint"
  | .literal => "literal"

/-- What a caller wants a text to be. -/
inductive WantedRoot
  | production (production : Production)
  | category (category : Category)
  deriving DecidableEq, Repr

def WantedRoot.name : WantedRoot → String
  | .production wanted => wanted.name
  | .category wanted => wanted.name

/-- What a text turned out to be. -/
inductive FoundRoot
  | production (production : Production)
  | constraint (category : Category) (keyword : String)
  deriving DecidableEq, Repr

def FoundRoot.name : FoundRoot → String
  | .production found => found.name
  | .constraint category keyword => s!"{category.name} constraint `{keyword}`"

/-- What the arguments of a keyword should have been. -/
inductive WantedArguments
  | shapes (shapes : List Shape)
  | queryParts
  | buildable (error : ConstructionError)
  deriving DecidableEq

def WantedArguments.describe : WantedArguments → String
  | .shapes list => Shape.describeAll list
  | .queryParts => "(entities, filterBy?, orderBy?, require?) with each part at most once"
  | .buildable error => error.message

/-- Why a text is refused. -/
inductive ParseError
  /-- The text cannot be read beyond a place; at its end no character is found. -/
  | unreadable (place : Text.Position) (found : Option Char)
  | nestedQuery (place : Text.Position)
  | unknownKeyword (keyword : String) (place : Text.Position)
  | invalidArguments (keyword : String) (place : Text.Position) (wanted : WantedArguments)
  | unexpectedRoot (wanted : WantedRoot) (found : FoundRoot) (place : Text.Position)
  deriving DecidableEq

namespace ParseError

def place : ParseError → Text.Position
  | .unreadable place _ => place
  | .nestedQuery place => place
  | .unknownKeyword _ place => place
  | .invalidArguments _ place _ => place
  | .unexpectedRoot _ _ place => place

/-- How messages name a character, or the end of a text. -/
def describeFound : Option Char → String
  | some c => String.ofList ['\'', c, '\'']
  | none => "end of input"

def message : ParseError → String
  | .unreadable place found =>
    s!"Syntax error at {place.describe}: unexpected input (found {describeFound found})"
  | .nestedQuery place =>
    s!"Syntax error at {place.describe}: "
      ++ "`query` is only allowed as the outermost constraint (found query)"
  | .unknownKeyword keyword place => s!"Unknown constraint `{keyword}` at {place.describe}"
  | .invalidArguments keyword place wanted =>
    s!"Invalid arguments for `{keyword}` at {place.describe}: expected {wanted.describe}"
  | .unexpectedRoot wanted found place =>
    s!"Expected {wanted.name} at {place.describe}, found {found.name}"

end ParseError
end CatalogQuery
