import CatalogQuery.Literal.Error
import CatalogQuery.Literal.Printer

namespace CatalogQuery.Literal

/-- What stands before and after the first `c`. -/
def splitAt? (c : Char) (text : List Char) : Option (List Char × List Char) :=
  let before := text.takeWhile (· != c)
  match text.drop before.length with
  | [] => none
  | _ :: after => some (before, after)

/-- A bound without its blanks; an empty one is missing. -/
def bound? (text : List Char) : Option (List Char) :=
  let text := Text.trim text
  if text.isEmpty then none else some text

/-- The bounds of a range in brackets. -/
def splitRange? (text : List Char) : Option (Option (List Char) × Option (List Char)) :=
  match Text.trim text with
  | '[' :: rest =>
    ((Text.dropClosing? ']' rest).bind (splitAt? ',')).map fun (lower, upper) =>
      (bound? lower, bound? upper)
  | _ => none

def readBound {ε α : Type} (read : List Char → Except ε α) :
    Option (List Char) → Except ε (Option α)
  | none => .ok none
  | some text => (read text).map some

/-- Reads both bounds of a range, the lower one first. -/
def readBounds {α : Type} (read : List Char → Except LiteralFault α) (text : List Char) :
    Except LiteralFault (Option α × Option α) := do
  match splitRange? text with
  | none => throw .noRange
  | some (lower, upper) =>
    let lower ← readBound read lower
    let upper ← readBound read upper
    return (lower, upper)

/-- What stands between two backticks. -/
def betweenTicks? : List Char → Option (List Char)
  | '\x60' :: rest => Text.dropClosing? '\x60' rest
  | _ => none

def readBoolean (text : List Char) : Except LiteralFault Bool :=
  if text = booleanText true then .ok true
  else if text = booleanText false then .ok false
  else .error .noBoolean

/-- Reads a text as a literal of a kind. -/
def parse (kind : LiteralKind) (text : List Char) : Except LiteralError Literal :=
  match kind with
  | .string =>
    match Text.unquote? text with
    | some value => .ok (.string (String.ofList value))
    | none => fail .unquoted
  | .int => named ((mapFault .integer (Text.readInt64 text)).map .int)
  | .decimal => named ((mapFault .decimal (Decimal.read text)).map .decimal)
  | .boolean => named ((readBoolean text).map .boolean)
  | .date => named ((mapFault .calendar (Calendar.readDate text)).map .date)
  | .time => named ((mapFault .calendar (Calendar.readTime text)).map .time)
  | .dateTime => named ((mapFault .calendar (Calendar.readDateTime text)).map .dateTime)
  | .zonedDateTime => named ((mapFault .calendar (Calendar.readZoned text)).map .zonedDateTime)
  | .intRange => do
    let (lower, upper) ← named (readBounds (mapFault .integer <| Text.readInt64 ·) text)
    intRange? lower upper
  | .decimalRange => do
    let (lower, upper) ← named (readBounds (mapFault .decimal <| Decimal.read ·) text)
    decimalRange? lower upper
  | .dateTimeRange => do
    let (lower, upper) ← named (readBounds (mapFault .calendar <| Calendar.readZoned ·) text)
    dateTimeRange? lower upper
  | .enum => enum? (String.ofList text)
  | .locale =>
    match betweenTicks? text with
    | some tag => locale? (String.ofList tag)
    | none => fail .unmarkedLocale
  | .multiple => fail .onlyInQueries
where
  /-- The text is refused. -/
  fail {α : Type} (fault : LiteralFault) : Except LiteralError α :=
    .error (.invalid kind (String.ofList text) fault)
  /-- A fault in the text. -/
  named {α : Type} : Except LiteralFault α → Except LiteralError α :=
    mapFault (.invalid kind (String.ofList text))

end CatalogQuery.Literal
