namespace CatalogQuery

inductive LiteralKind
  | string
  | int
  | decimal
  | boolean
  | date
  | time
  | dateTime
  | zonedDateTime
  | intRange
  | decimalRange
  | dateTimeRange
  | enum
  | locale
  | multiple
  deriving DecidableEq, Repr

namespace LiteralKind

def name : LiteralKind → String
  | .string => "string"
  | .int => "int"
  | .decimal => "decimal"
  | .boolean => "boolean"
  | .date => "date"
  | .time => "time"
  | .dateTime => "date-time"
  | .zonedDateTime => "zoned date-time"
  | .intRange => "int range"
  | .decimalRange => "decimal range"
  | .dateTimeRange => "date-time range"
  | .enum => "enum"
  | .locale => "locale"
  | .multiple => "multiple"

/-- The tag of a kind in JSON. -/
def tag : LiteralKind → String
  | .string => "string"
  | .int => "int"
  | .decimal => "decimal"
  | .boolean => "boolean"
  | .date => "date"
  | .time => "time"
  | .dateTime => "date_time"
  | .zonedDateTime => "zoned_date_time"
  | .intRange => "int_range"
  | .decimalRange => "decimal_range"
  | .dateTimeRange => "date_time_range"
  | .enum => "enum"
  | .locale => "locale"
  | .multiple => "multiple"

def all : List LiteralKind :=
  [.string, .int, .decimal, .boolean, .date, .time, .dateTime, .zonedDateTime, .intRange,
    .decimalRange, .dateTimeRange, .enum, .locale, .multiple]

def ofTag? (tag : String) : Option LiteralKind := all.find? (·.tag == tag)

theorem ofTag?_tag (kind : LiteralKind) : ofTag? kind.tag = some kind := by
  cases kind <;> decide

end LiteralKind
end CatalogQuery
