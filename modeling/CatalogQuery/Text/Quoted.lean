namespace CatalogQuery.Text

/-- The characters that are written with a backslash. -/
def needsEscape (c : Char) : Bool := c == '\'' || c == '\\'

/-- The inside of a quoted string. -/
def escape : List Char → List Char
  | [] => []
  | c :: rest => if needsEscape c then '\\' :: c :: escape rest else c :: escape rest

/-- A string in single quotes. -/
def quote (value : List Char) : List Char := '\'' :: escape value ++ ['\'']

/-- Resolves the escapes of the inside of a string. A bare quote and a backslash
at the end are refused. -/
def unescape? (mark : Char) : List Char → Option (List Char)
  | [] => some []
  | ['\\'] => none
  | '\\' :: c :: rest => (unescape? mark rest).map (c :: ·)
  | c :: rest => if c = mark then none else (unescape? mark rest).map (c :: ·)

def dropClosing? (mark : Char) (text : List Char) : Option (List Char) :=
  if text.getLast? = some mark then some text.dropLast else none

def unquote? : List Char → Option (List Char)
  | [] => none
  | mark :: rest =>
    if mark = '\'' ∨ mark = '"' then (dropClosing? mark rest).bind (unescape? mark) else none

/-- The text up to and with the closing quote, and what follows it; a backslash
takes the next character along. -/
def splitQuoted? (mark : Char) : List Char → Option (List Char × List Char)
  | [] => none
  | ['\\'] => none
  | '\\' :: c :: rest =>
    (splitQuoted? mark rest).map fun (inside, after) => ('\\' :: c :: inside, after)
  | c :: rest =>
    if c = mark then some ([c], rest)
    else (splitQuoted? mark rest).map fun (inside, after) => (c :: inside, after)

/-- The quoted string a text starts with, quotes included, and the rest. -/
def scanQuoted? : List Char → Option (List Char × List Char)
  | [] => none
  | mark :: rest =>
    if mark = '\'' ∨ mark = '"' then
      (splitQuoted? mark rest).map fun (inside, after) => (mark :: inside, after)
    else none

end CatalogQuery.Text
