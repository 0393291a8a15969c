import CatalogQuery.Calendar.Printer
import CatalogQuery.Calendar.Reader
import CatalogQuery.Decimal.Printer
import CatalogQuery.Decimal.Reader
import CatalogQuery.Literal.Basic

namespace CatalogQuery

/-- Why a text is no literal of a kind. -/
inductive LiteralFault
  | unquoted
  | noBoolean
  | noRange
  | unmarkedLocale
  | onlyInQueries
  | noEnumToken
  | noLanguageTag
  | integer (fault : Text.IntegerFault)
  | decimal (fault : Decimal.Fault)
  | calendar (fault : Calendar.Fault)
  deriving DecidableEq

def LiteralFault.message : LiteralFault → String
  | .unquoted => "expected a quoted string"
  | .noBoolean => "expected `true` or `false`"
  | .noRange => "expected [from,to]"
  | .unmarkedLocale => "expected a backtick-quoted language tag"
  | .onlyInQueries => "multiple literals are only accepted inside query text"
  | .noEnumToken => "expected an UPPER_SNAKE_CASE token"
  | .noLanguageTag => "expected a language tag like `en-US`"
  | .integer fault => fault.message
  | .decimal fault => fault.message
  | .calendar fault => fault.message

inductive LiteralError
  | invalid (kind : LiteralKind) (text : String) (fault : LiteralFault)
  | unboundedRange
  | invertedRange (lower upper : String)
  | tooFewValues (count : Nat)
  | unsupported (value : String)
  deriving DecidableEq

namespace LiteralError

def message : LiteralError → String
  | .invalid kind text fault => s!"Invalid {kind.name} literal `{text}`: {fault.message}"
  | .unboundedRange => "Invalid range literal `[,]`: at least one bound is required"
  | .invertedRange lower upper =>
    s!"Invalid range literal `[{lower},{upper}]`: lower bound exceeds upper bound"
  | .tooFewValues count =>
    s!"Invalid multiple literal `{count} value(s)`: a multiple literal holds at least two values"
  | .unsupported value => s!"Unsupported value type: {value}"

/-- The error of bounds that make no range; `write` writes a bound. -/
def ofRange {α : Type} (write : α → List Char) : RangeFault α → LiteralError
  | .unbounded => .unboundedRange
  | .inverted lower upper =>
    .invertedRange (String.ofList (write lower)) (String.ofList (write upper))

end LiteralError

def mapFault {ε ε' α : Type} (f : ε → ε') : Except ε α → Except ε' α
  | .ok value => .ok value
  | .error fault => .error (f fault)

namespace Literal

def intRange? (lower upper : Option Int64) : Except LiteralError Literal :=
  (mapFault (.ofRange fun n => Text.integerText n.toInt) (Range.make lower upper)).map .intRange

def decimalRange? (lower upper : Option Decimal) : Except LiteralError Literal :=
  (mapFault (.ofRange Decimal.text) (Range.make lower upper)).map .decimalRange

def dateTimeRange? (lower upper : Option ZonedDateTime) : Except LiteralError Literal :=
  (mapFault (.ofRange ZonedDateTime.exactText) (Range.make lower upper)).map .dateTimeRange

def enum? (word : String) : Except LiteralError Literal :=
  match EnumToken.ofWord? word with
  | some token => .ok (.enum token)
  | none => .error (.invalid .enum word .noEnumToken)

def locale? (tag : String) : Except LiteralError Literal :=
  match Locale.ofTag? tag with
  | some tag => .ok (.locale tag)
  | none => .error (.invalid .locale tag .noLanguageTag)

/-- A literal of two or more literals. -/
def multiple? : List Literal → Except LiteralError Literal
  | first :: second :: rest => .ok (.multiple first second rest)
  | values => .error (.tooFewValues values.length)

end Literal
end CatalogQuery
