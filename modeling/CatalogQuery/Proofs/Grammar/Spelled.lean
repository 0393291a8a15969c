import CatalogQuery.Proofs.Grammar.Nodes

/-!
# The grammar of query text

What the spellings of a tree are, stated without a reader. A tree is spelled by its
tokens in their order, and a text spells the tree if it is those tokens with any run of
blanks before and after each:

    tree    = word "(" [tree ("," tree)*] ")" | literal
    literal = token | "{" literal ("," literal)+ "}"

No alternative comes before another, and nothing says how far a token reaches.
-/

namespace CatalogQuery.Grammar

/-! ### Tokens -/

/-- A text is one token, and the token converts to a literal. -/
inductive TokenOf : List Char → Literal → Prop
  | string {mark : Char} {rest : List Char} {l : Literal} : mark = '\'' ∨ mark = '"' →
    Text.Quoted mark rest → Literal.parse .string (mark :: rest) = .ok l → TokenOf (mark :: rest) l
  | locale {tag : List Char} {l : Literal} : '\x60' ∉ tag →
    Literal.parse .locale ('\x60' :: tag ++ ['\x60']) = .ok l →
    TokenOf ('\x60' :: tag ++ ['\x60']) l
  | range {content : List Char} {l : Literal} : (∀ c ∈ content, c ≠ '[' ∧ c ≠ ']') →
    Literal.parse (rangeKind ('[' :: content ++ [']'])) ('[' :: content ++ [']']) = .ok l →
    TokenOf ('[' :: content ++ [']']) l
  | scalar {token : List Char} {l : Literal} : Scalar token →
    Literal.parse (scalarKind token) token = .ok l → TokenOf token l
  | word {token : List Char} {l : Literal} : Word token → wordLiteral? token = some l →
    TokenOf token l

/-! ### Trees -/

/-- A literal, or a call of a keyword with arguments. -/
inductive Tree
  | literal (value : Literal)
  | call (keyword : String) (arguments : List Tree)

mutual

/-- A raw node without the places of its calls. -/
def RawNode.tree : RawNode → Tree
  | .literal value => .literal value
  | .call keyword _ arguments => .call keyword (trees arguments)

def RawNode.trees : List RawNode → List Tree
  | [] => []
  | first :: rest => tree first :: trees rest

end

theorem RawNode.trees_eq (raws : List RawNode) : RawNode.trees raws = raws.map RawNode.tree := by
  induction raws with
  | nil => rfl
  | cons raw raws ih => rw [RawNode.trees, ih, List.map_cons]

/-- Lists of tokens with a comma between each two. -/
def commas (parts : List (List (List Char))) : List (List Char) := [[',']].intercalate parts

/-- The tokens of a literal: one token, or two literals or more in braces. -/
inductive LiteralSpelled : Literal → List (List Char) → Prop
  | single {token : List Char} {l : Literal} : TokenOf token l → LiteralSpelled l [token]
  | multiple (first second : Literal × List (List Char))
    (others : List (Literal × List (List Char))) :
    (∀ item ∈ first :: second :: others, LiteralSpelled item.1 item.2) →
    LiteralSpelled (.multiple first.1 second.1 (others.map Prod.fst))
      (['\x7b'] :: commas ((first :: second :: others).map Prod.snd) ++ [['\x7d']])

/-- The tokens of a tree: those of a literal, or a keyword and trees in brackets. -/
inductive TreeSpelled : Tree → List (List Char) → Prop
  | literal {l : Literal} {tokens : List (List Char)} :
    LiteralSpelled l tokens → TreeSpelled (.literal l) tokens
  | call {word : List Char} (arguments : List (Tree × List (List Char))) : Word word →
    (∀ argument ∈ arguments, TreeSpelled argument.1 argument.2) →
    TreeSpelled (.call (String.ofList word) (arguments.map Prod.fst))
      (word :: ['('] :: commas (arguments.map Prod.snd) ++ [[')']])

/-- A text spells a tree: it is the tokens of the tree with blanks around them. -/
def Spells (tree : Tree) (text : List Char) : Prop :=
  ∃ tokens, TreeSpelled tree tokens ∧ LaidOut tokens text

end CatalogQuery.Grammar
