import CatalogQuery.Calendar.Moment
import CatalogQuery.Literal.Kind
import CatalogQuery.Literal.Range
import CatalogQuery.Literal.Token

namespace CatalogQuery

/-- The values that a query carries as arguments of its constraints. -/
inductive Literal
  | string (value : String)
  | int (value : Int64)
  | decimal (value : Decimal)
  | boolean (value : Bool)
  | date (value : Date)
  | time (value : Time)
  | dateTime (value : DateTime)
  | zonedDateTime (value : ZonedDateTime)
  | intRange (range : Range Int64)
  | decimalRange (range : Range Decimal)
  | dateTimeRange (range : Range ZonedDateTime)
  | enum (token : EnumToken)
  | locale (tag : Locale)
  /-- Two or more literals. -/
  | multiple (first second : Literal) (rest : List Literal)

namespace Literal

def kind : Literal → LiteralKind
  | .string _ => .string
  | .int _ => .int
  | .decimal _ => .decimal
  | .boolean _ => .boolean
  | .date _ => .date
  | .time _ => .time
  | .dateTime _ => .dateTime
  | .zonedDateTime _ => .zonedDateTime
  | .intRange _ => .intRange
  | .decimalRange _ => .decimalRange
  | .dateTimeRange _ => .dateTimeRange
  | .enum _ => .enum
  | .locale _ => .locale
  | .multiple .. => .multiple

def asString? : Literal → Option String
  | .string value => some value
  | _ => none

def asInt? : Literal → Option Int64
  | .int value => some value
  | _ => none

/-- The number of a decimal or an int literal. -/
def asDecimal? : Literal → Option Decimal
  | .decimal value => some value
  | .int value => some (.ofInt64 value)
  | _ => none

def asEnum? : Literal → Option EnumToken
  | .enum token => some token
  | _ => none

def asLocale? : Literal → Option Locale
  | .locale tag => some tag
  | _ => none

def asZoned? : Literal → Option ZonedDateTime
  | .zonedDateTime value => some value
  | _ => none

mutual

/-- Whether two literals are the same value: decimals by the numbers they stand for, zoned
date-times by their instants. A whole number never equals a decimal. -/
def equal : Literal → Literal → Bool
  | .string a, .string b => a == b
  | .int a, .int b => a == b
  | .decimal a, .decimal b => a.equal b
  | .boolean a, .boolean b => a == b
  | .date a, .date b => a == b
  | .time a, .time b => a == b
  | .dateTime a, .dateTime b => a == b
  | .zonedDateTime a, .zonedDateTime b => a.sameInstant b
  | .intRange a, .intRange b => a.equal (· == ·) b
  | .decimalRange a, .decimalRange b => a.equal Decimal.equal b
  | .dateTimeRange a, .dateTimeRange b => a.equal ZonedDateTime.sameInstant b
  | .enum a, .enum b => a == b
  | .locale a, .locale b => a == b
  | .multiple a₁ a₂ as, .multiple b₁ b₂ bs => equal a₁ b₁ && equal a₂ b₂ && equalAll as bs
  | _, _ => false

def equalAll : List Literal → List Literal → Bool
  | [], [] => true
  | a :: as, b :: bs => equal a b && equalAll as bs
  | _, _ => false

end

end Literal
end CatalogQuery
