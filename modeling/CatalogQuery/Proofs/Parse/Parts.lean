import CatalogQuery.Proofs.Parse.Errors
import CatalogQuery.Proofs.Query.Roles

namespace CatalogQuery

namespace Grammar

theorem mapM_meaning?_of_trees {raws raws' : List RawNode}
    (each : ∀ raw ∈ raws, ∀ raw' : RawNode, raw.tree = raw'.tree → raw.meaning? = raw'.meaning?)
    (same : raws.map RawNode.tree = raws'.map RawNode.tree) :
    raws.mapM RawNode.meaning? = raws'.mapM RawNode.meaning? := by
  induction raws generalizing raws' with
  | nil =>
    rw [List.map_nil, eq_comm, List.map_eq_nil_iff] at same
    rw [same]
  | cons raw raws ih =>
    cases raws' with
    | nil => cases same
    | cons raw' raws' =>
      obtain ⟨first, others⟩ := List.cons.inj same
      rw [List.mapM_cons, List.mapM_cons, each raw List.mem_cons_self raw' first,
        ih (fun raw hr => each raw (List.mem_cons_of_mem _ hr)) others]

/-- **Where calls stand is of no account to what a raw node means.** -/
theorem meaning?_of_tree {raw raw' : RawNode} (h : raw.tree = raw'.tree) :
    raw.meaning? = raw'.meaning? := by
  induction raw using RawNode.induct generalizing raw' with
  | literal value =>
    cases raw' with
    | literal value' =>
      cases h
      rfl
    | call keyword source raws => cases h
  | call keyword source raws ih =>
    cases raw' with
    | literal value => cases h
    | call keyword' source' raws' =>
      simp only [RawNode.tree, RawNode.trees_eq, Tree.call.injEq] at h
      obtain ⟨rfl, same⟩ := h
      rw [meaning?_call, meaning?_call, mapM_meaning?_of_trees (fun raw hr _ => ih raw hr) same]

/-- Raw arguments in another order, in another text, are resolved to the same arguments. -/
theorem resolvesTo_perm {text : List Char} (text' : List Char) {raws raws' : List RawNode}
    {arguments : List Argument} (resolved : ResolvesTo text raws arguments)
    (same : (raws.map RawNode.tree).Perm (raws'.map RawNode.tree)) :
    ∃ arguments', ResolvesTo text' raws' arguments' ∧ arguments.Perm arguments' := by
  let Says (tree : Tree) (argument : Argument) : Prop :=
    ∃ raw : RawNode, raw.tree = tree ∧ raw.meaning? = some argument
  have said : List.Forall₂ Says (raws.map RawNode.tree) arguments := by
    rw [List.forall₂_map_left_iff]
    apply resolved.imp
    intro raw argument h
    rw [← Outcome.toOption_eq_some, toOption_resolve] at h
    exact ⟨raw, rfl, h⟩
  obtain ⟨arguments', said', perm⟩ := List.perm_comp_forall₂ same.symm said
  refine ⟨arguments', ?_, perm.symm⟩
  rw [List.forall₂_map_left_iff] at said'
  apply said'.imp
  rintro raw argument ⟨raw', tree, h⟩
  rw [← Outcome.toOption_eq_some, toOption_resolve, ← meaning?_of_tree tree, h]

end Grammar

open Grammar

section
variable {text source : List Char} {raws : List RawNode}

theorem parse_query_of_readRoot (read : readRoot text = .ok (.call Query.keyword source raws)) :
    parse text = (resolveQuery ⟨text, source⟩ raws).map .query := by
  rw [parse_of_readRoot read, resolveRoot, if_pos rfl]

/-- A text of a query says the query that its arguments make. -/
theorem parse_of_makes (read : readRoot text = .ok (.call Query.keyword source raws))
    {arguments : List Argument} (resolved : ResolvesTo text raws arguments)
    (makes : MakesQuery arguments) : ∃ (parts : QueryParts) (head : HeadConstraint),
      parts.Holds arguments ∧ parts.head = some head ∧
      parse text = .ok (.query ⟨head, parts.filterBy, parts.orderBy, parts.require⟩) := by
  obtain ⟨parts, head, holds, hhead, made⟩ :=
    resolveQuery_of_makes ⟨text, source⟩ resolved makes
  refine ⟨parts, head, holds, hhead, ?_⟩
  rw [parse_query_of_readRoot read, made]
  rfl

theorem parse_of_fault (read : readRoot text = .ok (.call Query.keyword source raws))
    {e : ParseError} (fault : QueryFault text (Site.place ⟨text, source⟩) raws e) :
    parse text = .error e := by
  rw [parse_query_of_readRoot read, resolveQuery_of_fault ⟨text, source⟩ fault]
  rfl

/-- What was accepted was made by the arguments. -/
theorem makes_of_parse (read : readRoot text = .ok (.call Query.keyword source raws))
    {v : Parsed} (h : parse text = .ok v) :
    ∃ arguments, ResolvesTo text raws arguments ∧ MakesQuery arguments := by
  rcases makes_or_fault text (Site.place ⟨text, source⟩) raws with makes | ⟨e, fault⟩
  · exact makes
  · rw [parse_of_fault read fault] at h
    cases h

/-- Arguments in another order say the same query. -/
theorem parse_of_perm (read : readRoot text = .ok (.call Query.keyword source raws))
    {text' source' : List Char} {raws' : List RawNode}
    (read' : readRoot text' = .ok (.call Query.keyword source' raws'))
    (same : (raws.map RawNode.tree).Perm (raws'.map RawNode.tree)) {v : Parsed}
    (h : parse text = .ok v) : parse text' = .ok v := by
  obtain ⟨arguments, resolved, makes⟩ := makes_of_parse read h
  obtain ⟨arguments', resolved', perm⟩ := resolvesTo_perm text' resolved same
  obtain ⟨parts, head, holds, hhead, made⟩ := parse_of_makes read resolved makes
  obtain ⟨parts', head', holds', hhead', made'⟩ :=
    parse_of_makes read' resolved' (makes.of_perm perm)
  cases holds.unique holds' perm
  rw [hhead, Option.some.injEq] at hhead'
  rw [made', ← hhead', ← made, h]

/-- **A query is made of its arguments in any order, or the first obstacle is reported.** A text
of a query is accepted exactly if its arguments make a query; then its parts are the arguments,
and a text with the same arguments in another order says the same. Otherwise the error is that
of the first argument that has no place, or, if all have, tells of the missing head. Once all
arguments have their places, the checked constructor never fails. -/
theorem query_of_its_parts (read : readRoot text = .ok (.call Query.keyword source raws)) :
    ((∃ v, parse text = .ok v) ↔
      ∃ arguments, ResolvesTo text raws arguments ∧ MakesQuery arguments) ∧
    (∀ v, parse text = .ok v → ∃ q arguments, v = .query q ∧ ResolvesTo text raws arguments ∧
      (q.parts.map Argument.constraint).Perm arguments) ∧
    (∀ text' source' raws', readRoot text' = .ok (.call Query.keyword source' raws') →
      (raws.map RawNode.tree).Perm (raws'.map RawNode.tree) →
      ∀ v, parse text = .ok v ↔ parse text' = .ok v) ∧
    (∀ e, parse text = .error e ↔ QueryFault text (Site.place ⟨text, source⟩) raws e) ∧
    ∀ parts, resolveParts ⟨text, source⟩ .none raws = .ok parts → ∀ head ∈ parts.head,
      ∃ q, Query.create head parts.filterBy parts.orderBy parts.require = .ok q := by
  refine ⟨⟨?_, ?_⟩, ?_, ?_, ?_, ?_⟩
  · rintro ⟨v, h⟩
    exact makes_of_parse read h
  · rintro ⟨arguments, resolved, makes⟩
    obtain ⟨parts, head, -, -, made⟩ := parse_of_makes read resolved makes
    exact ⟨_, made⟩
  · intro v h
    obtain ⟨arguments, resolved, makes⟩ := makes_of_parse read h
    obtain ⟨parts, head, holds, hhead, made⟩ := parse_of_makes read resolved makes
    rw [h, Except.ok.injEq] at made
    refine ⟨_, arguments, made, resolved, ?_⟩
    rw [parts_eq hhead]
    exact holds.perm makes.toPlaced
  · intro text' source' raws' read' same v
    exact ⟨parse_of_perm read read' same, parse_of_perm read' read same.symm⟩
  · intro e
    refine ⟨?_, parse_of_fault read⟩
    intro h
    rcases makes_or_fault text (Site.place ⟨text, source⟩) raws with makes | ⟨e', fault⟩
    · obtain ⟨arguments, resolved, makes⟩ := makes
      obtain ⟨parts, head, -, -, made⟩ := parse_of_makes read resolved makes
      rw [h] at made
      cases made
    · rw [parse_of_fault read fault, Except.error.injEq] at h
      exact h ▸ fault
  · intro parts found head hhead
    obtain ⟨arguments, -, -, holds⟩ := holds_of_resolveParts found
    exact ⟨_, holds.create hhead⟩

end

/-- A text of a query with the filter before the head. -/
def filterFirst : List Char := "query(filterBy(isNull('b')),entities('A'))".toList

/-- The same with the head before the filter. -/
def headFirst : List Char := "query(entities('A'),filterBy(isNull('b')))".toList

theorem filterFirst_says_headFirst : (∃ v, parse filterFirst = .ok v) ∧
    ∀ v, parse filterFirst = .ok v ↔ parse headFirst = .ok v := by
  let isNull (source : List Char) : RawNode := .call "isNull" source [.literal (.string "b")]
  let filter (source inside : List Char) : RawNode := .call "filterBy" source [isNull inside]
  let head (source : List Char) : RawNode := .call "entities" source [.literal (.string "A")]
  have read : readRoot filterFirst = .ok (.call "query" filterFirst
      [filter (filterFirst.drop 6) (filterFirst.drop 15), head (filterFirst.drop 28)]) := rfl
  have read' : readRoot headFirst = .ok (.call "query" headFirst
      [head (headFirst.drop 6), filter (headFirst.drop 20) (headFirst.drop 29)]) := rfl
  obtain ⟨accepted, -, order, -, -⟩ := query_of_its_parts read
  constructor
  · have resolved : ResolvesTo filterFirst
        [filter (filterFirst.drop 6) (filterFirst.drop 15), head (filterFirst.drop 28)]
        [.constraint ⟨.filter, .node .filterBy [] [.node .isNull [.string "b"] []]⟩,
          .constraint ⟨.head, .node .entities [.string "A"] []⟩] :=
      .cons rfl (.cons rfl .nil)
    exact accepted.mpr ⟨_, resolved, ⟨by decide, by decide⟩, by decide⟩
  · exact order _ _ _ read' (List.Perm.swap _ _ _)

end CatalogQuery
