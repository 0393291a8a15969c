import CatalogQuery.Json.Decode
import CatalogQuery.Json.Printer
import CatalogQuery.Literal.Error

/-!
# Literals in JSON

A literal is stored as its kind and its value. Numbers and truth values are
stored as they are, ranges as their bounds, several literals as an array, and
everything else as text.
-/

namespace CatalogQuery

namespace Json

/-- A decimal as text, as a whole number or as a binary one. -/
def asDecimal? : Json → Option Decimal
  | .string value => (Decimal.read value.toList).toOption
  | .number (.whole value _) => Decimal.ofWhole? value
  | .number (.double value) => (Decimal.read value.plainText).toOption
  | _ => none

/-- A text that a reader accepts. -/
def asReadBy? {ε α : Type} (read : List Char → Except ε α) (json : Json) : Option α :=
  json.asString?.bind fun value => (read value.toList).toOption

def asZoned? : Json → Option ZonedDateTime := asReadBy? Calendar.readJsonZoned

/-- One bound of a range. In a list of bounds none may be left out. -/
def bound? {α : Type} (decode : Json → Option α) (place : Nat) (name : String) (json : Json) :
    Option (Option α) :=
  if json.isPositional && (json.field? place name).isNone then none
  else optional? decode (json.field? place name)

def bounds? {α : Type} (decode : Json → Option α) (json : Json) : Option (Option α × Option α) :=
  if json.isRecord 2 then
    match json.bound? decode 0 "from", json.bound? decode 1 "to" with
    | some lower, some upper => some (lower, upper)
    | _, _ => none
  else none

end Json

namespace Literal

open Json (Decoded wanted accepted keepIf)

/-- A literal of a kind from its stored value, for every kind but `multiple`. -/
def scalarOfJson (kind : LiteralKind) (value : Json) : Decoded LiteralError Literal :=
  match kind with
  | .string => (wanted value.asString?).map .string
  | .int => (wanted value.asInt64?).map .int
  | .decimal => (wanted value.asDecimal?).map .decimal
  | .boolean => (wanted value.asBoolean?).map .boolean
  | .date => (wanted (value.asReadBy? Calendar.readJsonDate)).map .date
  | .time => (wanted (value.asReadBy? Calendar.readJsonTime)).map .time
  | .dateTime => (wanted (value.asReadBy? Calendar.readJsonDateTime)).map .dateTime
  | .zonedDateTime => (wanted value.asZoned?).map .zonedDateTime
  | .intRange => do
    let (lower, upper) ← wanted (value.bounds? Json.asInt64?)
    accepted (intRange? lower upper)
  | .decimalRange => do
    let (lower, upper) ← wanted (value.bounds? Json.asDecimal?)
    accepted (decimalRange? lower upper)
  | .dateTimeRange => do
    let (lower, upper) ← wanted (value.bounds? Json.asZoned?)
    accepted (dateTimeRange? lower upper)
  | .enum => do
    let word ← wanted value.asString?
    accepted (enum? word)
  | .locale => do
    let tag ← wanted value.asString?
    accepted (locale? tag)
  | .multiple => .error .malformed

def kindOfJson? (json : Json) : Option LiteralKind :=
  (json.tag? "kind").bind LiteralKind.ofTag?

mutual

/-- The literal of a stored form: first its kind, then its value. -/
def ofJson (json : Json) : Decoded LiteralError Literal := do
  let kind ← wanted (kindOfJson? json)
  match h : json.field? 1 "value" with
  | none => .error .malformed
  | some value =>
    have := Json.sizeOf_field? h
    let literal ← valueOfJson kind value
    keepIf (json.isRecord 2) literal
  termination_by sizeOf json

def valueOfJson (kind : LiteralKind) (value : Json) : Decoded LiteralError Literal :=
  match kind, value with
  | .multiple, .array items => do
    let literals ← listOfJson items
    accepted (multiple? literals)
  | kind, value => scalarOfJson kind value
  termination_by sizeOf value

def listOfJson (items : List Json) : Decoded LiteralError (List Literal) :=
  match items with
  | [] => .ok []
  | item :: rest => do
    let literal ← ofJson item
    let literals ← listOfJson rest
    return literal :: literals
  termination_by sizeOf items

end

def arrayOfJson : Json → Decoded LiteralError (List Literal)
  | .array items => listOfJson items
  | _ => .error .malformed

def textJson (text : List Char) : Json := .string (String.ofList text)

/-- The stored form of a range; a missing bound is `null`. -/
def rangeJson {α : Type} [LE α] (write : α → Json) (r : Range α) : Json :=
  .object [("from", r.lower.elim .null write), ("to", r.upper.elim .null write)]

/-- A kind with a value. -/
def tagged (kind : LiteralKind) (value : Json) : Json :=
  .object [("kind", .string kind.tag), ("value", value)]

mutual

def toJson : Literal → Json
  | .string value => tagged .string (.string value)
  | .int value => tagged .int (.ofInt64 value)
  | .decimal value => tagged .decimal (textJson value.text)
  | .boolean value => tagged .boolean (.boolean value)
  | .date value => tagged .date (textJson value.text)
  | .time value => tagged .time (textJson value.text)
  | .dateTime value => tagged .dateTime (textJson value.text)
  | .zonedDateTime value => tagged .zonedDateTime (textJson value.jsonText)
  | .intRange range => tagged .intRange (rangeJson .ofInt64 range)
  | .decimalRange range => tagged .decimalRange (rangeJson (textJson ·.text) range)
  | .dateTimeRange range => tagged .dateTimeRange (rangeJson (textJson ·.jsonText) range)
  | .enum token => tagged .enum (.string token.word)
  | .locale tag => tagged .locale (.string tag.tag)
  | .multiple first second rest =>
    tagged .multiple (.array (toJson first :: toJson second :: listToJson rest))

def listToJson : List Literal → List Json
  | [] => []
  | literal :: rest => toJson literal :: listToJson rest

end

end Literal
end CatalogQuery
