import CatalogQuery.Grammar.Token
import CatalogQuery.Text.Position

/-!
# Raw trees

Query text is first read without any knowledge of keywords. The result is a tree
of literals and of calls: a keyword with a list of arguments in round brackets.

    root  = node, end
    node  = word "(" [node ("," node)*] ")" | literal
    literal = token | "{" literal ("," literal)+ "}"

Blanks may stand before and after each token. One character is enough to tell
which alternative applies, so the first place that does not fit is where reading
fails. A bare word that is no literal fails after the word, where a bracket could
have made a call of it.
-/

namespace CatalogQuery.Grammar

/-- A node before its keyword is looked up. The source of a call is all of the text
from its keyword on. -/
inductive RawNode
  | literal (value : Literal)
  | call (keyword : String) (source : List Char) (arguments : List RawNode)

/-- What follows an item of a list: more items after commas, and the closing
bracket. At most `limit` items are read. -/
def readItems {α : Type} (item : Reader α) (closing : Char) :
    Nat → Reader (List α)
  | 0, text => failAt text
  | limit + 1, text =>
    match Text.skipBlanks text with
    | [] => failAt []
    | c :: rest =>
      if c = closing then .ok ([], rest)
      else if c = ',' then do
        let (first, rest) ← item (Text.skipBlanks rest)
        let (others, rest) ← readItems item closing limit rest
        return (first :: others, rest)
      else failAt (c :: rest)

/-- The comma that has to follow the first item of a list of two or more. -/
def readComma (text : List Char) : Except Failure (List Char) :=
  match Text.skipBlanks text with
  | ',' :: rest => .ok (Text.skipBlanks rest)
  | other => failAt other

/-- Reads a literal; braces nest at most `depth` deep. Within braces invalid
values are hidden. -/
def readLiteral : Nat → Bool → Reader Literal
  | 0, _, text => failAt text
  | depth + 1, hidden, text =>
    match text with
    | '\x7b' :: inside => do
      let (first, rest) ← readLiteral depth true (Text.skipBlanks inside)
      let rest ← readComma rest
      let (second, rest) ← readLiteral depth true rest
      let (others, rest) ← readItems (readLiteral depth true) '\x7d' (depth + 1) rest
      return (.multiple first second others, rest)
    | other => readToken hidden other

/-- The arguments of a call and its closing bracket, read from the opening one. -/
def readArguments {α : Type} (item : Reader α) (limit : Nat) : Reader (List α) :=
  fun text =>
  match Text.skipBlanks text with
  | ')' :: rest => .ok ([], rest)
  | other => do
    let (first, rest) ← item other
    let (others, rest) ← readItems item ')' limit rest
    return (first :: others, rest)

/-- Reads a node that starts with a word: a call, or a literal of one word. -/
def readWordNode (item : Reader RawNode) (limit : Nat) : Reader RawNode :=
  fun text =>
  let (word, rest) := scanWord text
  match Text.skipBlanks rest with
  | '(' :: inside => do
    let (arguments, rest) ← readArguments item limit inside
    return (.call (String.ofList word) text arguments, rest)
  | other =>
    match wordLiteral? word with
    | some literal => .ok (.literal literal, other)
    | none => failAt other

/-- Reads a node that starts here; calls nest at most `depth` deep. -/
def readNode : Nat → Reader RawNode
  | 0, text => failAt text
  | depth + 1, text =>
    if (text.head?.map isWordStart).getD false then
      readWordNode (readNode depth) (depth + 1) text
    else
      (readLiteral (depth + 1) false text).map fun (literal, rest) => (.literal literal, rest)

/-- The raw tree of a whole text. Nesting is never deeper than the text is long. -/
def readRoot (text : List Char) : Except Failure RawNode := do
  let (node, rest) ← readNode (text.length + 1) (Text.skipBlanks text)
  let rest := Text.skipBlanks rest
  if rest.isEmpty then return node else failAt rest

end CatalogQuery.Grammar
