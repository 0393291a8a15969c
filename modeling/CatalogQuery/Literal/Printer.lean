import CatalogQuery.Calendar.Printer
import CatalogQuery.Decimal.Printer
import CatalogQuery.Literal.Basic
import CatalogQuery.Text.Quoted

namespace CatalogQuery

/-- Two bounds in brackets; a missing one is left out. -/
def Range.text {α : Type} [LE α] (write : α → List Char) (r : Range α) : List Char :=
  '[' :: r.lower.elim [] write ++ ',' :: r.upper.elim [] write ++ [']']

namespace Literal

def booleanText (value : Bool) : List Char := if value then "true".toList else "false".toList

mutual

/-- The canonical text of a literal. -/
def text : Literal → List Char
  | .string value => Text.quote value.toList
  | .int value => Text.integerText value.toInt
  | .decimal value => value.queryText
  | .boolean value => booleanText value
  | .date value => value.text
  | .time value => value.text
  | .dateTime value => value.text
  | .zonedDateTime value => value.queryText
  | .intRange range => range.text fun n => Text.integerText n.toInt
  | .decimalRange range => range.text Decimal.queryText
  | .dateTimeRange range => range.text ZonedDateTime.queryText
  | .enum token => token.word.toList
  | .locale tag => '\x60' :: tag.tag.toList ++ ['\x60']
  | .multiple first second rest =>
    '\x7b' :: text first ++ ',' :: text second ++ restText rest ++ ['\x7d']

/-- Literals with a comma before each. -/
def restText : List Literal → List Char
  | [] => []
  | value :: rest => ',' :: text value ++ restText rest

end

def format (literal : Literal) : String := String.ofList literal.text

end Literal
end CatalogQuery
