import CatalogQuery.Proofs.Grammar.Roots
import CatalogQuery.Proofs.Query.Normal

namespace CatalogQuery.Grammar

open Constraint (toAny)

/-- A property of the constraints that have taken their places. -/
structure QueryParts.All (P : AnyConstraint → Prop) (parts : QueryParts) : Prop where
  head : ∀ tree ∈ parts.head, P tree.toAny
  filterBy : ∀ tree ∈ parts.filterBy, P tree.toAny
  orderBy : ∀ tree ∈ parts.orderBy, P tree.toAny
  require : ∀ tree ∈ parts.require, P tree.toAny

/-- A constraint takes a place, and nothing else changes. -/
theorem QueryParts.All.add {P : AnyConstraint → Prop} {parts parts' : QueryParts}
    (all : parts.All P) {argument : Argument} (h : ∀ any, argument = .constraint any → P any)
    (added : parts.add? argument = some parts') : parts'.All P := by
  cases argument with
  | literal value => cases added
  | constraint any =>
    have own : P any := h _ rfl
    obtain ⟨category, tree⟩ := any
    cases category <;>
      simp only [add?, Option.ite_none_right_eq_some, Option.some.injEq] at added <;>
      obtain ⟨-, rfl⟩ := added
    · exact { all with head := fun _ same => Option.some.inj same ▸ own }
    · exact { all with filterBy := fun _ same => Option.some.inj same ▸ own }
    · exact { all with orderBy := fun _ same => Option.some.inj same ▸ own }
    · exact { all with require := fun _ same => Option.some.inj same ▸ own }

theorem QueryParts.All.foldlM {P : AnyConstraint → Prop} {parts parts' : QueryParts}
    (all : parts.All P) {arguments : List Argument}
    (h : ∀ any, Argument.constraint any ∈ arguments → P any)
    (added : arguments.foldlM QueryParts.add? parts = some parts') : parts'.All P := by
  induction arguments generalizing parts with
  | nil =>
    cases added
    exact all
  | cons argument rest ih =>
    rw [List.foldlM_cons, Option.bind_eq_bind, Option.bind_eq_some_iff] at added
    obtain ⟨next, first, rest⟩ := added
    refine ih (all.add ?_ first) (fun any ha => h any (List.mem_cons_of_mem _ ha)) rest
    rintro any rfl
    exact h any List.mem_cons_self

theorem mem_toList_map {c : Category} {tree : Option (Constraint c)} {any : AnyConstraint}
    (h : any ∈ (tree.map toAny).toList) : ∃ own ∈ tree, own.toAny = any := by
  simpa using h

/-- **A query is made of its arguments.** -/
theorem queryOf?_eq_some {arguments : List Argument} {q : Query}
    (h : queryOf? arguments = some q) :
    q.rooted = true ∧ ∀ any ∈ q.parts, Argument.constraint any ∈ arguments := by
  obtain ⟨parts, folded, made⟩ := Option.bind_eq_some_iff.mp h
  obtain ⟨head, hhead, made⟩ := Option.bind_eq_some_iff.mp made
  have none : QueryParts.none.All fun any => Argument.constraint any ∈ arguments := by
    constructor <;> intro _ same <;> cases same
  have all := none.foldlM (fun _ ha => ha) folded
  have create := Query.toOption_create ⟨head, parts.filterBy, parts.orderBy, parts.require⟩
  rw [create, Option.ite_none_right_eq_some, Option.some.injEq] at made
  obtain ⟨rooted, rfl⟩ := made
  refine ⟨rooted, ?_⟩
  intro any ha
  simp only [Query.parts, List.mem_cons, List.mem_append] at ha
  rcases ha with rfl | (ha | ha) | ha
  · exact all.head head hhead
  · obtain ⟨tree, htree, rfl⟩ := mem_toList_map ha
    exact all.filterBy tree htree
  · obtain ⟨tree, htree, rfl⟩ := mem_toList_map ha
    exact all.orderBy tree htree
  · obtain ⟨tree, htree, rfl⟩ := mem_toList_map ha
    exact all.require tree htree

/-! ### Queries as written -/

/-- A constraint that may be a part takes its place if that is empty. -/
theorem foldlM_place {c : Category} (parts : QueryParts)
    (place : Option (Constraint c) → QueryParts) (empty : place none = parts)
    (step : ∀ tree, parts.add? (.constraint tree.toAny) =
      if tree.toAny.isPart then some (place (some tree)) else none)
    (tree : Option (Constraint c)) :
    ((tree.map toAny).toList.map Argument.constraint).foldlM QueryParts.add? parts =
      if (tree.map toAny).toList.all AnyConstraint.isPart then some (place tree) else none := by
  cases tree with
  | none => exact congrArg some empty.symm
  | some tree =>
    have all : ((some tree).map toAny).toList.all AnyConstraint.isPart = tree.toAny.isPart :=
      Bool.and_true _
    rw [all]
    simp only [Option.map_some, Option.toList_some, List.map_cons, List.map_nil, List.foldlM_cons,
      List.foldlM_nil, bind_pure, step]

/-- The parts of a query make it, if they may be parts of one. -/
theorem queryOf?_parts (q : Query) :
    queryOf? (q.parts.map Argument.constraint) = if q.rooted then some q else none := by
  obtain ⟨head, filterBy, orderBy, require⟩ := q
  have first := foldlM_place ⟨some head, none, none, none⟩
    (fun tree => ⟨some head, tree, none, none⟩) rfl
    (fun tree => by simp [QueryParts.add?, AnyConstraint.isPart, toAny]) filterBy
  have second := foldlM_place ⟨some head, filterBy, none, none⟩
    (fun tree => ⟨some head, filterBy, tree, none⟩) rfl
    (fun tree => by simp [QueryParts.add?, AnyConstraint.isPart, toAny]) orderBy
  have third := foldlM_place ⟨some head, filterBy, orderBy, none⟩
    (fun tree => ⟨some head, filterBy, orderBy, tree⟩) rfl
    (fun tree => by simp [QueryParts.add?, AnyConstraint.isPart, toAny]) require
  have made : QueryParts.query? ⟨some head, filterBy, orderBy, require⟩ =
      if Query.rooted ⟨head, filterBy, orderBy, require⟩ then
        some ⟨head, filterBy, orderBy, require⟩
      else none := Query.toOption_create ⟨head, filterBy, orderBy, require⟩
  have start : QueryParts.none.add? (.constraint head.toAny) =
      some ⟨some head, none, none, none⟩ := rfl
  rw [Query.rooted_eq] at made ⊢
  simp only [queryOf?, Query.parts, List.map_cons, List.map_append, List.foldlM_cons,
    List.foldlM_append, start, Option.bind_eq_bind, Option.bind_some, first]
  by_cases f : (filterBy.map toAny).toList.all AnyConstraint.isPart = true
  · by_cases o : (orderBy.map toAny).toList.all AnyConstraint.isPart = true
    · by_cases r : (require.map toAny).toList.all AnyConstraint.isPart = true
      · simp only [f, o, r, Bool.and_self, if_true, Option.bind_some, second, third] at made ⊢
        exact made
      · simp only [f, o, r, Bool.and_false, Bool.false_eq_true, if_true, if_false,
          Option.bind_some, Option.bind_none, second, third]
    · simp only [f, o, Bool.and_false, Bool.false_and, Bool.false_eq_true, if_true, if_false,
        Option.bind_some, Option.bind_none, second]
  · simp only [f, Bool.false_and, Bool.false_eq_true, if_false, Option.bind_none]

/-! ### Queries as nodes -/

/-- A query in some layout, with what becomes of its normal form. -/
def spellingOf (layout : Layout) (q : Query) : Spelling Parsed :=
  ⟨q.render layout, if q.readable && q.fits && q.rooted then some (.query q.normal) else none⟩

def partItems (layout : Layout) (q : Query) : List (Spelling Argument) :=
  q.parts.map fun any => any.constraint.spelling Argument.constraint layout 1

theorem opens_partItems {layout : Layout} (spaced : layout.Spaced) (q : Query) :
    ∀ s ∈ partItems layout q, Opens s.text := by
  intro s hs
  obtain ⟨any, -, rfl⟩ := List.mem_map.mp hs
  exact opens_render spaced 1 any.constraint

theorem valuesOf_partItems (layout : Layout) (q : Query) : valuesOf (partItems layout q) =
    if q.readable && q.fits then some (q.normal.parts.map Argument.constraint) else none := by
  have each : valuesOf (partItems layout q) =
      if q.parts.all fun any => any.readable && any.fits then
        some (q.parts.map fun any => Argument.constraint any.normal)
      else none := valuesOf_map fun any _ => rfl
  rw [each, all_and, Query.parts_normal, List.map_map]
  rfl

theorem word_query : Word Query.keyword.toList := word_of (by decide) (by decide)

/-- **Queries read back where they fit.** -/
theorem readNode_query {layout : Layout} (spaced : layout.Spaced) (q : Query) {depth : Nat}
    (hd : (q.render layout).length ≤ depth) :
    (spellingOf layout q).ReadBy (readNode depth) RawNode.rootMeaning? := by
  obtain ⟨blanks, comma, hb⟩ := spaced.separator 0
  have opens := opens_partItems spaced q
  obtain ⟨count, short⟩ := bounds_intercalate (',' :: blanks) opens
  have texts : (partItems layout q).map Spelling.text = q.renderParts layout := by
    rw [Query.renderParts_eq, partItems, List.map_map]
    rfl
  have text : q.render layout = Query.keyword.toList ++ '(' :: (layout.opening 0 ++
      (',' :: blanks).intercalate ((partItems layout q).map Spelling.text) ++ layout.closing 0 ++
        [')']) := by
    rw [Query.render, Layout.nested, comma, texts]
    simp
  rw [text] at hd
  simp only [List.length_append, List.length_cons] at hd
  obtain ⟨depth, rfl⟩ : ∃ n, depth = n + 1 := ⟨depth - 1, by omega⟩
  have read : ∀ s ∈ partItems layout q, s.ReadBy (readNode depth) RawNode.meaning? := by
    intro s hs
    have fits : s.text.length ≤ depth := Nat.le_trans (short s hs) (by omega)
    obtain ⟨any, -, rfl⟩ := List.mem_map.mp hs
    exact readNode_tree spaced any.constraint 1 fits
  have call (source : List Char) (raws : List RawNode) :
      (RawNode.call (String.ofList Query.keyword.toList) source raws).rootMeaning? =
        (raws.mapM RawNode.meaning?).bind fun arguments =>
          (queryOf? arguments).map Parsed.query := by
    rw [String.ofList_toList]
    exact toOption_resolveRoot_query [] source raws
  have node := readNode_call word_query call (spaced.opening 0) hb (spaced.closing 0) opens read
    (by omega)
  have value : (valuesOf (partItems layout q)).bind (fun arguments =>
      (queryOf? arguments).map Parsed.query) = (spellingOf layout q).value := by
    rw [valuesOf_partItems, spellingOf]
    by_cases h : (q.readable && q.fits) = true
    · simp only [h, if_true, Option.bind_some, queryOf?_parts, Query.rooted_normal, Bool.true_and]
      split <;> rfl
    · simp only [h, Bool.false_and, Bool.false_eq_true, if_false, Option.bind_none]
  rw [value, ← text] at node
  exact node

end CatalogQuery.Grammar
