import CatalogQuery.Json.Printer
import CatalogQuery.Literal.Error

namespace CatalogQuery.Literal

/-- A text that stands for a value of no literal kind. -/
def refuse {α : Type} (text : List Char) : Except LiteralError α :=
  .error (.unsupported (String.ofList text))

/-- A decimal literal of the number a text says. -/
def decimalOfText? (text : List Char) : Except LiteralError Literal :=
  match Decimal.read text with
  | .ok d => .ok (.decimal d)
  | .error _ => refuse text

def ofInt? (n : Int) : Except LiteralError Literal :=
  if -9223372036854775808 ≤ n ∧ n < 9223372036854775808 then .ok (.int (Int64.ofInt n))
  else refuse (Text.integerText n)

/-- A binary number as the decimal that it is written as. -/
def ofBinary? {f : BinaryFormat} (x : Binary f) : Except LiteralError Literal :=
  decimalOfText? x.plainText

/-- A JSON number: a whole number of 64 bits is an int, all else a decimal. -/
def ofNumber? (n : Json.Number) : Except LiteralError Literal :=
  match n.toInt64? with
  | some value => .ok (.int value)
  | none => decimalOfText? n.text

mutual

/-- The literal of a JSON value. An array with fewer than two items is refused
before its items are looked at. -/
def ofPlainJson? : Json → Except LiteralError Literal
  | .string value => .ok (.string value)
  | .boolean value => .ok (.boolean value)
  | .number value => ofNumber? value
  | .array (first :: second :: rest) => do
    let first ← ofPlainJson? first
    let second ← ofPlainJson? second
    let rest ← ofPlainItems? rest
    return .multiple first second rest
  | other => refuse other.text

/-- The literals of JSON values, refused at the first that is none. -/
def ofPlainItems? : List Json → Except LiteralError (List Literal)
  | [] => .ok []
  | item :: rest => do
    let literal ← ofPlainJson? item
    let literals ← ofPlainItems? rest
    return literal :: literals

end

end CatalogQuery.Literal
