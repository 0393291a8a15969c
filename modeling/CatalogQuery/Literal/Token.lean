/-!
# Enum tokens and language tags

An enum token is a word of upper-case letters, digits and underscores that
starts with a letter. A language tag is a run of two to eight letters, followed
by runs of up to eight letters and digits, with hyphens between them. All
letters are those of ASCII.
-/

namespace CatalogQuery

namespace Text

/-- An upper-case letter, a digit or an underscore. -/
def isEnumChar (c : Char) : Bool := c.isUpper || c.isDigit || c == '_'

def isEnumToken : List Char → Bool
  | [] => false
  | c :: rest => c.isUpper && rest.all isEnumChar

def subtags (text : List Char) : List (List Char) := text.splitOn '-'

/-- Whether a part may start a language tag. -/
def isPrimarySubtag (part : List Char) : Bool :=
  2 ≤ part.length && part.length ≤ 8 && part.all Char.isAlpha

def isSubtag (part : List Char) : Bool :=
  1 ≤ part.length && part.length ≤ 8 && part.all Char.isAlphanum

def isLanguageTag (text : List Char) : Bool :=
  match subtags text with
  | [] => false
  | first :: rest => isPrimarySubtag first && rest.all isSubtag

end Text

/-- A word such as `WITH_TAX`. -/
structure EnumToken where
  word : String
  wellFormed : Text.isEnumToken word.toList = true
  deriving DecidableEq

def EnumToken.ofWord? (word : String) : Option EnumToken :=
  if h : Text.isEnumToken word.toList = true then some ⟨word, h⟩ else none

/-- A language tag such as `cs-CZ`. -/
structure Locale where
  tag : String
  wellFormed : Text.isLanguageTag tag.toList = true
  deriving DecidableEq

def Locale.ofTag? (tag : String) : Option Locale :=
  if h : Text.isLanguageTag tag.toList = true then some ⟨tag, h⟩ else none

end CatalogQuery
