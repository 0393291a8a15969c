import CatalogQuery.Proofs.Grammar.Exact
import CatalogQuery.Proofs.Parse.RoundTrip

namespace CatalogQuery

/-! ### The literals of what was parsed -/

/-- The arguments of a constraint and of all constraints below it. -/
def Constraint.literals {c : Category} (tree : Constraint c) : List Literal :=
  tree.nodes.flatMap (·.arguments)

def Parsed.literals : Parsed → List Literal
  | .query q => q.parts.flatMap (·.constraint.literals)
  | .constraint any => any.constraint.literals
  | .literal l => [l]

theorem Constraint.literals_node {c : Category} (kind : Kind c) (arguments : List Literal)
    (children : List (Constraint c)) : literals (.node kind arguments children) =
      arguments ++ children.flatMap literals := by
  rw [literals, nodes_node, List.flatMap_cons, List.flatMap_assoc]
  rfl

theorem Constraint.readable_eq {c : Category} (tree : Constraint c) :
    tree.readable = tree.literals.all Literal.readable := by
  rw [readable, literals, List.all_flatMap]

theorem Parsed.readable_eq (v : Parsed) : v.readable = v.literals.all Literal.readable := by
  cases v with
  | query q =>
    rw [readable, literals, List.all_flatMap]
    exact congrArg (q.parts.all ·) (funext fun any => any.constraint.readable_eq)
  | constraint any => exact any.constraint.readable_eq
  | literal l => exact (Bool.and_true l.readable).symm

namespace Grammar

/-! ### Literals -/

theorem readable_of_wordLiteral? {word : List Char} {l : Literal}
    (h : wordLiteral? word = some l) : l.readable = true := by
  unfold wordLiteral? at h
  split at h
  · rename_i read
    cases h
    exact Literal.readable_of_parse read
  · exact Literal.readable_of_parse (Outcome.toOption_eq_some.mp h)

theorem TokenOf.readable {token : List Char} {l : Literal} (h : TokenOf token l) :
    l.readable = true := by
  cases h with
  | string _ _ parse => exact Literal.readable_of_parse parse
  | locale _ parse => exact Literal.readable_of_parse parse
  | range _ parse => exact Literal.readable_of_parse parse
  | scalar _ parse => exact Literal.readable_of_parse parse
  | word _ found => exact readable_of_wordLiteral? found

theorem LiteralSpelled.readable {l : Literal} {tokens : List (List Char)}
    (h : LiteralSpelled l tokens) : l.readable = true := by
  induction h with
  | single token => exact token.readable
  | multiple first second others _ ih =>
    have below : (others.map Prod.fst).all Literal.readable = true := by
      rw [List.all_map]
      exact List.all_eq_true.mpr fun item hitem => ih item (by simp [hitem])
    rw [Literal.readable, ih first (by simp), ih second (by simp), Literal.readableAll_eq, below]
    rfl

/-! ### Raw trees -/

/-- All literals of a raw tree have a property. -/
inductive RawNode.AllRead (P : Literal → Prop) : RawNode → Prop
  | literal (value : Literal) : P value → AllRead P (.literal value)
  | call (keyword : String) (source : List Char) (arguments : List RawNode) :
    (∀ raw ∈ arguments, AllRead P raw) → AllRead P (.call keyword source arguments)

theorem subset_commas {parts : List (List (List Char))} {part : List (List Char)}
    (h : part ∈ parts) : part ⊆ commas parts := by
  cases parts with
  | nil => cases h
  | cons first others =>
    intro token ht
    rw [commas, intercalate_cons]
    rcases List.mem_cons.mp h with rfl | h
    · exact List.mem_append_left _ ht
    · refine List.mem_append_right _ (List.mem_flatMap.mpr ⟨part, h, ?_⟩)
      exact List.mem_append_right _ ht

/-- The arguments of a call are spelled by some of its tokens. -/
theorem spelled_of_call {keyword : String} {trees : List Tree} {tokens : List (List Char)}
    (h : TreeSpelled (.call keyword trees) tokens) :
    ∀ tree ∈ trees, ∃ part ⊆ tokens, TreeSpelled tree part := by
  cases h with
  | call arguments _ each =>
    intro tree ht
    obtain ⟨argument, ha, rfl⟩ := List.mem_map.mp ht
    refine ⟨argument.2, fun token htoken => ?_, each argument ha⟩
    have among := subset_commas (List.mem_map_of_mem (f := Prod.snd) ha) htoken
    simp [among]

/-- A property of the literals that some of the tokens spell. -/
theorem allRead_of_spelled {P : Literal → Prop} {raw : RawNode} {tokens : List (List Char)}
    (h : TreeSpelled raw.tree tokens)
    (each : ∀ l, ∀ part ⊆ tokens, LiteralSpelled l part → P l) : raw.AllRead P := by
  induction raw using RawNode.induct generalizing tokens with
  | literal value =>
    rw [RawNode.tree] at h
    cases h with
    | literal h => exact .literal value (each value _ (List.Subset.refl _) h)
  | call keyword source raws ih =>
    rw [RawNode.tree, RawNode.trees_eq] at h
    refine .call keyword source raws fun raw hraw => ?_
    obtain ⟨part, among, spelled⟩ := spelled_of_call h raw.tree (List.mem_map_of_mem hraw)
    exact ih raw hraw spelled fun l inner sub => each l inner (List.Subset.trans sub among)

/-- What an argument is if its literals have a property and its constraints fit. -/
def Sound (P : Literal → Prop) : Argument → Prop
  | .literal l => P l
  | .constraint any => (∀ l ∈ any.constraint.literals, P l) ∧ any.fits = true

theorem mem_of_mapM {α β : Type} {f : α → Option β} {as : List α} {bs : List β}
    (h : as.mapM f = some bs) : ∀ b ∈ bs, ∃ a ∈ as, f a = some b := by
  induction as generalizing bs with
  | nil =>
    cases h
    simp
  | cons a as ih =>
    rw [List.mapM_cons, Option.bind_eq_bind, Option.bind_eq_some_iff] at h
    obtain ⟨first, hfirst, h⟩ := h
    rw [Option.bind_eq_bind, Option.bind_eq_some_iff] at h
    obtain ⟨rest, hrest, h⟩ := h
    cases h
    intro b hb
    rcases List.mem_cons.mp hb with rfl | hb
    · exact ⟨a, List.mem_cons_self, hfirst⟩
    · obtain ⟨a', ha', same⟩ := ih hrest b hb
      exact ⟨a', List.mem_cons_of_mem _ ha', same⟩

section
variable {P : Literal → Prop}

/-- What a keyword makes of sound arguments is sound. -/
theorem sound_of_built? {keyword : String} {arguments : List Argument} {any : AnyConstraint}
    (sound : ∀ argument ∈ arguments, Sound P argument) (h : built? keyword arguments = some any) :
    Sound P (.constraint any) := by
  obtain ⟨c, kind, literals, children, rfl, rfl, fits⟩ := built?_eq_some h
  have own : ∀ l ∈ literals, P l := by
    intro l hl
    exact sound (.literal l) (List.mem_append_left _ (List.mem_map_of_mem hl))
  have below : ∀ child ∈ children, (∀ l ∈ child.literals, P l) ∧ child.fits = true := by
    intro child hchild
    refine sound (.constraint child.toAny) (List.mem_append_right _ ?_)
    exact List.mem_map_of_mem (f := fun child => Argument.constraint child.toAny) hchild
  constructor
  · intro l hl
    rcases List.mem_append.mp (Constraint.literals_node kind literals children ▸ hl) with hl | hl
    · exact own l hl
    · obtain ⟨child, hchild, hl⟩ := List.mem_flatMap.mp hl
      exact (below child hchild).1 l hl
  · have all := List.all_eq_true.mpr fun child hc => (below child hc).2
    change Constraint.fits (.node kind literals children) = true
    rw [Constraint.fits_node, fits, all]
    rfl

/-- **What a raw tree means is sound** for a property of all its literals. -/
theorem sound_of_meaning {raw : RawNode} {argument : Argument} (read : raw.AllRead P)
    (h : raw.meaning? = some argument) : Sound P argument := by
  induction raw using RawNode.induct generalizing argument with
  | literal value =>
    cases h
    cases read
    assumption
  | call keyword source raws ih =>
    cases read with
    | call _ _ _ each =>
      rw [meaning?_call, Option.bind_eq_some_iff] at h
      obtain ⟨arguments, harguments, h⟩ := h
      obtain ⟨any, built, rfl⟩ := Option.map_eq_some_iff.mp h
      apply sound_of_built? _ built
      intro argument ha
      obtain ⟨raw, hraw, meaning⟩ := mem_of_mapM harguments argument ha
      exact ih raw hraw (each raw hraw) meaning

/-- The arguments of a call mean sound ones. -/
theorem sound_of_mapM {raws : List RawNode} (read : ∀ raw ∈ raws, raw.AllRead P)
    {arguments : List Argument} (h : raws.mapM RawNode.meaning? = some arguments) :
    ∀ argument ∈ arguments, Sound P argument := by
  intro argument ha
  obtain ⟨raw, hraw, meaning⟩ := mem_of_mapM h argument ha
  exact sound_of_meaning (read raw hraw) meaning

theorem sound_of_queryOf? {arguments : List Argument} {q : Query}
    (sound : ∀ argument ∈ arguments, Sound P argument) (h : queryOf? arguments = some q) :
    (∀ l ∈ (Parsed.query q).literals, P l) ∧ (Parsed.query q).fits = true := by
  obtain ⟨rooted, parts⟩ := queryOf?_eq_some h
  have each : ∀ any ∈ q.parts, Sound P (.constraint any) := by
    intro any ha
    exact sound _ (parts any ha)
  constructor
  · intro l hl
    obtain ⟨any, ha, hl⟩ := List.mem_flatMap.mp hl
    exact (each any ha).1 l hl
  · exact Bool.and_eq_true_iff.mpr ⟨List.all_eq_true.mpr fun any ha => (each any ha).2, rooted⟩

theorem sound_of_rootMeaning? {raw : RawNode} {v : Parsed} (read : raw.AllRead P)
    (h : raw.rootMeaning? = some v) : (∀ l ∈ v.literals, P l) ∧ v.fits = true := by
  cases read with
  | literal value property =>
    cases h
    exact ⟨by simpa [Parsed.literals] using property, rfl⟩
  | call keyword source raws each =>
    by_cases query : keyword = Query.keyword
    · rw [query, RawNode.rootMeaning?, toOption_resolveRoot_query, Option.bind_eq_some_iff] at h
      obtain ⟨arguments, harguments, h⟩ := h
      obtain ⟨q, made, rfl⟩ := Option.map_eq_some_iff.mp h
      exact sound_of_queryOf? (sound_of_mapM each harguments) made
    · rw [RawNode.rootMeaning?, toOption_resolveRoot_call query, Option.bind_eq_some_iff] at h
      obtain ⟨arguments, harguments, h⟩ := h
      obtain ⟨any, made, rfl⟩ := Option.map_eq_some_iff.mp h
      exact sound_of_built? (sound_of_mapM each harguments) made

end

end Grammar

/-- **What a text is parsed to is made of what its tokens spell.** The tokens are those of a
tree, some of them spell each literal, and the constraints fit. -/
theorem Parsed.spelled_of_parse {text : List Char} {v : Parsed} (h : parse text = .ok v) :
    ∃ tree tokens, Grammar.TreeSpelled tree tokens ∧ Grammar.LaidOut tokens text ∧
      (∀ l ∈ v.literals, ∃ part ⊆ tokens, Grammar.LiteralSpelled l part) ∧ v.fits = true := by
  rw [← Outcome.toOption_eq_some, Grammar.toOption_parse, Option.bind_eq_some_iff] at h
  obtain ⟨raw, root, meaning⟩ := h
  rw [Outcome.toOption_eq_some] at root
  obtain ⟨tokens, spelled, laidOut⟩ := Grammar.spells_of_readRoot root
  refine ⟨raw.tree, tokens, spelled, laidOut, Grammar.sound_of_rootMeaning? ?_ meaning⟩
  exact Grammar.allRead_of_spelled spelled fun l part sub found => ⟨part, sub, found⟩

/-- **What a text is parsed to can be read and fits.** -/
theorem Parsed.sound_of_parse {text : List Char} {v : Parsed} (h : parse text = .ok v) :
    v.readable = true ∧ v.fits = true := by
  obtain ⟨_, _, -, -, each, fits⟩ := spelled_of_parse h
  refine ⟨?_, fits⟩
  rw [readable_eq, List.all_eq_true]
  intro l hl
  obtain ⟨part, -, spelled⟩ := each l hl
  exact spelled.readable

end CatalogQuery
