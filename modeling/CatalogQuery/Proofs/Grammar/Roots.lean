import CatalogQuery.Grammar.Parse
import CatalogQuery.Proofs.Grammar.Nodes

namespace CatalogQuery

def Parsed.query? : Parsed → Option Query
  | .query q => some q
  | _ => none

def Parsed.constraint? : Parsed → Option AnyConstraint
  | .constraint any => some any
  | _ => none

def Parsed.literal? : Parsed → Option Literal
  | .literal l => some l
  | _ => none

namespace Grammar

/-- What a raw tree means as the root of a text. -/
def RawNode.rootMeaning? (raw : RawNode) : Option Parsed := (resolveRoot [] raw).toOption

/-- The query that parts make, if they do. -/
def QueryParts.query? (parts : QueryParts) : Option Query :=
  parts.head.bind fun head =>
    (Query.create head parts.filterBy parts.orderBy parts.require).toOption

def queryOf? (arguments : List Argument) : Option Query :=
  (arguments.foldlM QueryParts.add? .none).bind QueryParts.query?

/-! ### Places -/

theorem toOption_resolveParts (site : Site) (parts : QueryParts) (raws : List RawNode) :
    (resolveParts site parts raws).toOption =
      (raws.mapM RawNode.meaning?).bind fun arguments =>
        arguments.foldlM QueryParts.add? parts := by
  induction raws generalizing parts with
  | nil => rfl
  | cons raw raws ih =>
    rw [resolveParts, Outcome.toOption_bind, toOption_resolve, List.mapM_cons]
    cases raw.meaning? with
    | none => rfl
    | some argument =>
      cases added : parts.add? argument with
      | none => cases h : raws.mapM RawNode.meaning? <;> simp [refuseParts, added]
      | some parts' =>
        cases h : raws.mapM RawNode.meaning? <;> simp [ih, h, added]

theorem toOption_buildQuery (site : Site) (parts : QueryParts) :
    (buildQuery site parts).toOption = parts.query? := by
  unfold buildQuery QueryParts.query?
  cases parts.head with
  | none => rfl
  | some head =>
    cases made : Query.create head parts.filterBy parts.orderBy parts.require <;> simp [made]

theorem toOption_resolveQuery (site : Site) (raws : List RawNode) :
    (resolveQuery site raws).toOption = (raws.mapM RawNode.meaning?).bind queryOf? := by
  rw [resolveQuery, Outcome.toOption_bind, toOption_resolveParts, Option.bind_assoc]
  simp only [toOption_buildQuery]
  rfl

theorem toOption_resolveRoot_query (text source : List Char) (raws : List RawNode) :
    (resolveRoot text (.call Query.keyword source raws)).toOption =
      (raws.mapM RawNode.meaning?).bind fun arguments =>
        (queryOf? arguments).map Parsed.query := by
  rw [resolveRoot, if_pos rfl, Outcome.toOption_map, toOption_resolveQuery, Option.map_bind]
  rfl

theorem toOption_resolveRoot_call {keyword : String} (h : keyword ≠ Query.keyword)
    (text source : List Char) (raws : List RawNode) :
    (resolveRoot text (.call keyword source raws)).toOption =
      (raws.mapM RawNode.meaning?).bind fun arguments =>
        (built? keyword arguments).map Parsed.constraint := by
  have each : (raws.mapM fun raw => (resolve text raw).toOption) =
      raws.mapM RawNode.meaning? := mapM_congr fun raw _ => toOption_resolve text raw
  rw [resolveRoot, if_neg h, Outcome.toOption_bind, toOption_resolveAll, each]
  simp only [Outcome.toOption_map, toOption_buildCall]

theorem toOption_resolveRoot (text : List Char) (raw : RawNode) :
    (resolveRoot text raw).toOption = raw.rootMeaning? := by
  cases raw with
  | literal value => rfl
  | call keyword source raws =>
    by_cases h : keyword = Query.keyword
    · rw [h, RawNode.rootMeaning?, toOption_resolveRoot_query, toOption_resolveRoot_query]
    · rw [RawNode.rootMeaning?, toOption_resolveRoot_call h, toOption_resolveRoot_call h]

/-- **What a text is parsed to is what its raw tree means.** -/
theorem toOption_parse (text : List Char) :
    (parse text).toOption = (readRoot text).toOption.bind RawNode.rootMeaning? := by
  unfold parse
  cases readRoot text with
  | ok root => exact toOption_resolveRoot text root
  | error failure => rfl

/-- A text whose root reads back as a node is parsed to what it says. -/
theorem toOption_parse_spelled {s : Spelling Parsed} (opens : Opens s.text)
    (read : s.ReadBy (readNode (s.text.length + 1)) RawNode.rootMeaning?) :
    (parse s.text).toOption = s.value := by
  have start : Text.skipBlanks s.text = s.text := by
    simpa using skipBlanks_of_opens opens []
  have node := read [] stops_nil
  rw [List.append_nil, Text.skipBlanks_nil] at node
  rw [toOption_parse, readRoot, start]
  obtain ⟨none, failure, stopped⟩ | ⟨root, rest, done, said, blank⟩ := means_cases node
  · rw [stopped, none]
    rfl
  · rw [done]
    change (if (Text.skipBlanks rest).isEmpty then Except.ok root
      else failAt (Text.skipBlanks rest)).toOption.bind _ = _
    cases value : s.value with
    | none =>
      rw [value] at said
      split
      · exact said
      · rfl
    | some v =>
      rw [blank v value, if_pos List.isEmpty_nil]
      exact said.trans value

/-! ### Texts of one sort -/

theorem toOption_parseQuery (text : List Char) :
    (parseQuery text).toOption = (parse text).toOption.bind Parsed.query? := by
  rw [parseQuery, Outcome.toOption_bind]
  congr
  funext v
  cases v <;> rfl

theorem toOption_parseConstraint (text : List Char) :
    (parseConstraint text).toOption = (parse text).toOption.bind Parsed.constraint? := by
  rw [parseConstraint, Outcome.toOption_bind]
  congr
  funext v
  cases v <;> rfl

theorem toOption_parseConstraintAs (c : Category) (text : List Char) :
    (parseConstraintAs c text).toOption =
      (parseConstraint text).toOption.bind (AnyConstraint.as? c) := by
  rw [parseConstraintAs, Outcome.toOption_bind]
  congr
  funext any
  cases any.as? c <;> rfl

theorem toOption_parseLiteral (text : List Char) :
    (parseLiteral text).toOption = (parse text).toOption.bind Parsed.literal? := by
  rw [parseLiteral, Outcome.toOption_bind]
  congr
  funext v
  cases v <;> rfl

end Grammar
end CatalogQuery
