import CatalogQuery.Literal.Reader

namespace CatalogQuery.Grammar

/-- Where a text cannot be read: what is left of it there. An invalid value in
braces does not show its first character. -/
structure Failure where
  rest : List Char
  hidden : Bool
  deriving DecidableEq

/-- Reads something at the start of a text and leaves the rest. -/
abbrev Reader (α : Type) := List Char → Except Failure (α × List Char)

/-- The text cannot be read here. -/
def failAt {α : Type} (rest : List Char) : Except Failure α := .error ⟨rest, false⟩

def isWordStart (c : Char) : Bool := c.isAlpha || c == '_'

def isWordChar (c : Char) : Bool := c.isAlphanum || c == '_'

def scanWord (text : List Char) : List Char × List Char :=
  (text.takeWhile isWordChar, text.dropWhile isWordChar)

def isScalarStart (c : Char) : Bool := c.isDigit || c == '-' || c == '+'

def isScalarChar (c : Char) : Bool :=
  isScalarStart c || c == ':' || c == '.' || c == 'T' || c == 'Z'

def scanScalar (text : List Char) : List Char × List Char :=
  (text.takeWhile isScalarChar, text.dropWhile isScalarChar)

/-- The token from an opening mark to a closing one, and the rest. Between them
stand only characters that the test admits; `text` goes on after the opening
mark. -/
def scanBetween (opening closing : Char) (inside : Char → Bool) : Reader (List Char) :=
  fun text =>
  let content := text.takeWhile inside
  match text.dropWhile inside with
  | [] => failAt []
  | c :: rest =>
    if c = closing then .ok (opening :: content ++ [closing], rest) else failAt (c :: rest)

/-- Whether digits of a given number, and hyphens, are all of a text. -/
def isMonthAndDay : List Char → Bool
  | ['-', a, b, '-', c, d] => a.isDigit && b.isDigit && c.isDigit && d.isDigit
  | _ => false

/-- Whether a token has the form of a date: four digits or more, and twice two
digits after a hyphen. -/
def isDateForm (token : List Char) : Bool :=
  let digits := match token with
    | '+' :: rest => rest
    | '-' :: rest => rest
    | other => other
  let year := digits.takeWhile Char.isDigit
  4 ≤ year.length && isMonthAndDay (digits.dropWhile Char.isDigit)

/-- Whether a token ends with `Z` or with a sign, hours and minutes. -/
def endsWithOffset (token : List Char) : Bool :=
  match token.reverse with
  | 'Z' :: _ => true
  | d :: c :: ':' :: b :: a :: sign :: _ =>
    (sign == '+' || sign == '-') && a.isDigit && b.isDigit && c.isDigit && d.isDigit
  | _ => false

/-- The kind of literal that a number or a date has to be. -/
def scalarKind (token : List Char) : LiteralKind :=
  if token.contains 'T' then
    if endsWithOffset token then .zonedDateTime else .dateTime
  else if isDateForm token then .date
  else if token.contains ':' then .time
  else if token.contains '.' then .decimal
  else .int

/-- The kind of literal that a range has to be. -/
def rangeKind (token : List Char) : LiteralKind :=
  if token.contains 'T' then .dateTimeRange
  else if token.contains '.' then .decimalRange
  else .intRange

/-- The literal that a bare word spells: a truth value or an enum token. -/
def wordLiteral? (word : List Char) : Option Literal :=
  match Literal.parse .boolean word with
  | .ok literal => some literal
  | .error _ => (Literal.parse .enum word).toOption

/-- A value, or the failure to read one that starts here. -/
def orInvalid {α : Type} (start : List Char) (hidden : Bool) (rest : List Char) :
    Option α → Except Failure (α × List Char)
  | some value => .ok (value, rest)
  | none => .error ⟨start, hidden⟩

/-- The literal of a kind that a token spells. -/
def literalOf (kind : LiteralKind) (start : List Char) (hidden : Bool)
    (token rest : List Char) : Except Failure (Literal × List Char) :=
  orInvalid start hidden rest (Literal.parse kind token).toOption

def readToken (hidden : Bool) : Reader Literal
  | [] => failAt []
  | c :: after =>
    let start := c :: after
    if c = '\'' ∨ c = '"' then
      match Text.scanQuoted? start with
      | some (token, rest) => literalOf .string start hidden token rest
      | none => failAt []
    else if c = '\x60' then do
      let (token, rest) ← scanBetween '\x60' '\x60' (· != '\x60') after
      literalOf .locale start hidden token rest
    else if c = '[' then do
      let (token, rest) ← scanBetween '[' ']' (fun c => c != '[' && c != ']') after
      literalOf (rangeKind token) start hidden token rest
    else if isScalarStart c then
      let (token, rest) := scanScalar start
      literalOf (scalarKind token) start hidden token rest
    else if isWordStart c then
      let (word, rest) := scanWord start
      orInvalid start hidden rest (wordLiteral? word)
    else failAt start

end CatalogQuery.Grammar
