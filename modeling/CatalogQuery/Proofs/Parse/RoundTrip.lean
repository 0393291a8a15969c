import CatalogQuery.Proofs.Query.Meaning

namespace CatalogQuery

open Grammar

variable {c : Category}

theorem toOption_parse_literal (l : Literal) :
    (parse l.text).toOption = if l.readable then some (.literal l.normal) else none := by
  have literal (value : Literal) :
      (RawNode.literal value).rootMeaning? = some (Parsed.literal value) := rfl
  have node := readNode_literal literal l (Nat.le_succ l.text.length)
  have whole := toOption_parse_spelled (opens_text l) node
  rw [whole, Literal.spelling]
  split <;> rfl

theorem toOption_parse_render {layout : Layout} (spaced : layout.Spaced) (tree : Constraint c) :
    (parse (tree.render layout 0)).toOption =
      if tree.readable && tree.fits then some (.constraint tree.normal.toAny) else none := by
  obtain ⟨kind, arguments, children⟩ := tree
  have call (source : List Char) (raws : List RawNode) :
      (RawNode.call kind.keyword source raws).rootMeaning? =
        (raws.mapM RawNode.meaning?).bind fun arguments =>
          (built? kind.keyword arguments).map Parsed.constraint :=
    toOption_resolveRoot_call (keyword_ne_query kind) [] source raws
  have opens := opens_render spaced 0 (.node kind arguments children)
  apply toOption_parse_spelled (s := Constraint.spelling Parsed.constraint layout 0 _) opens
  apply readNode_node spaced arguments call _ (Nat.le_succ _)
  intro child _ depth fits
  exact readNode_tree spaced child 1 fits

theorem opens_query (layout : Layout) (q : Query) : Opens (q.render layout) :=
  opens_word word_query _

theorem toOption_parse_query {layout : Layout} (spaced : layout.Spaced) (q : Query) :
    (parse (q.render layout)).toOption =
      if q.readable && q.fits && q.rooted then some (.query q.normal) else none :=
  toOption_parse_spelled (opens_query layout q) (readNode_query spaced q (Nat.le_succ _))

theorem toOption_parse_constraint (tree : Constraint c) :
    (parse tree.text).toOption =
      if tree.readable && tree.fits then some (.constraint tree.normal.toAny) else none :=
  toOption_parse_render Layout.spaced_compact tree

/-! ### Texts of one sort -/

theorem toOption_parseLiteral_text (l : Literal) :
    (parseLiteral l.text).toOption = if l.readable then some l.normal else none := by
  rw [toOption_parseLiteral, toOption_parse_literal]
  split <;> rfl

theorem toOption_parseConstraint_text (tree : Constraint c) :
    (parseConstraint tree.text).toOption =
      if tree.readable && tree.fits then some tree.normal.toAny else none := by
  rw [toOption_parseConstraint, toOption_parse_constraint]
  split <;> rfl

theorem toOption_parseConstraintAs_text (tree : Constraint c) :
    (parseConstraintAs c tree.text).toOption =
      if tree.readable && tree.fits then some tree.normal else none := by
  rw [toOption_parseConstraintAs, toOption_parseConstraint_text]
  split
  · exact AnyConstraint.as?_self _
  · rfl

theorem toOption_parseQuery_text (q : Query) :
    (parseQuery q.text).toOption =
      if q.readable && q.fits && q.rooted then some q.normal else none := by
  rw [toOption_parseQuery, Query.text, toOption_parse_query Layout.spaced_compact]
  split <;> rfl

/-! ### Whatever was parsed -/

namespace Parsed

def text : Parsed → List Char
  | .query q => q.text
  | .constraint any => any.text
  | .literal l => l.text

/-- What the canonical text says. -/
def normal : Parsed → Parsed
  | .query q => .query q.normal
  | .constraint any => .constraint any.normal
  | .literal l => .literal l.normal

def readable : Parsed → Bool
  | .query q => q.readable
  | .constraint any => any.readable
  | .literal l => l.readable

def fits : Parsed → Bool
  | .query q => q.fits && q.rooted
  | .constraint any => any.fits
  | .literal _ => true

def negativeZeros : Parsed → Nat
  | .query q => q.negativeZeros
  | .constraint any => any.negativeZeros
  | .literal l => l.negativeZeros

/-- **Canonical text is parsed to its normal form** if it is readable and fits. -/
theorem toOption_parse_text (v : Parsed) :
    (parse v.text).toOption = if v.readable && v.fits then some v.normal else none := by
  cases v with
  | query q =>
    have whole := toOption_parse_query Layout.spaced_compact q
    rw [Bool.and_assoc] at whole
    exact whole
  | constraint any => exact toOption_parse_constraint any.constraint
  | literal l =>
    have whole := toOption_parse_literal l
    rw [← Bool.and_true l.readable] at whole
    exact whole

theorem production_normal (v : Parsed) : v.normal.production = v.production := by
  cases v <;> rfl

theorem equal_normal (v : Parsed) : v.equal v.normal = true := by
  cases v with
  | query q => exact q.equal_normal
  | constraint any => exact any.equal_normal
  | literal l => exact l.equal_normal

theorem text_normal_iff (v : Parsed) : v.normal.text = v.text ↔ v.negativeZeros = 0 := by
  cases v with
  | query q => exact q.text_normal_iff
  | constraint any => exact any.constraint.text_normal_iff
  | literal l => exact l.text_normal_iff

end Parsed
end CatalogQuery
