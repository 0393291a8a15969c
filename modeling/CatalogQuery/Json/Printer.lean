import CatalogQuery.Binary.Printer
import CatalogQuery.Json.Basic

namespace CatalogQuery.Json

def hexDigit (n : Nat) : Char := Nat.digitChar (n % 16)

/-- A number of 16 bits as an escape. -/
def unicodeEscape (n : Nat) : List Char :=
  ['\\', 'u', hexDigit (n / 4096), hexDigit (n / 256), hexDigit (n / 16), hexDigit n]

/-- A character inside a string. -/
def charText (c : Char) : List Char :=
  if c = '"' then ['\\', '"']
  else if c = '\\' then ['\\', '\\']
  else if c = '\n' then ['\\', 'n']
  else if c = '\r' then ['\\', 'r']
  else if c = '\t' then ['\\', 't']
  else if c.toNat = 8 then ['\\', 'b']
  else if c.toNat = 12 then ['\\', 'f']
  else if c.toNat < 32 then unicodeEscape c.toNat
  else [c]

def stringText (value : String) : List Char := '"' :: value.toList.flatMap charText ++ ['"']

def Number.text : Number → List Char
  | .whole value _ => Text.integerText value
  | .double value => value.jsonText

mutual

def text : Json → List Char
  | .null => "null".toList
  | .boolean true => "true".toList
  | .boolean false => "false".toList
  | .number value => value.text
  | .string value => stringText value
  | .array [] => ['[', ']']
  | .array (item :: rest) => '[' :: text item ++ restText rest ++ [']']
  | .object [] => ['\x7b', '\x7d']
  | .object ((name, value) :: rest) =>
    '\x7b' :: stringText name ++ ':' :: text value ++ membersText rest ++ ['\x7d']

/-- Items with a comma before each. -/
def restText : List Json → List Char
  | [] => []
  | item :: rest => ',' :: text item ++ restText rest

/-- Members with a comma before each. -/
def membersText : List (String × Json) → List Char
  | [] => []
  | (name, value) :: rest =>
    ',' :: stringText name ++ ':' :: text value ++ membersText rest

end

end CatalogQuery.Json
