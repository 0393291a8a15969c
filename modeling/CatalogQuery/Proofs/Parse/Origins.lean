import CatalogQuery.Proofs.Grammar.Cuts
import CatalogQuery.Proofs.Literal.Ranges
import CatalogQuery.Proofs.Parse.Soundness

namespace CatalogQuery

namespace Literal

mutual

/-- The values that a literal is made of: itself, if it is not several literals. -/
def scalars : Literal → List Literal
  | .multiple first second rest => scalars first ++ (scalars second ++ scalarsAll rest)
  | other => [other]

def scalarsAll : List Literal → List Literal
  | [] => []
  | first :: rest => scalars first ++ scalarsAll rest

end

theorem scalarsAll_eq (ls : List Literal) : scalarsAll ls = ls.flatMap scalars := by
  induction ls with
  | nil => rfl
  | cons l ls ih => rw [scalarsAll, ih, List.flatMap_cons]

theorem scalars_multiple (first second : Literal) (rest : List Literal) :
    scalars (.multiple first second rest) = (first :: second :: rest).flatMap scalars := by
  rw [scalars, scalarsAll_eq, List.flatMap_cons, List.flatMap_cons]

theorem scalars_single {l : Literal} (h : l.kind ≠ .multiple) : l.scalars = [l] := by
  cases l with
  | multiple => exact absurd rfl h
  | _ => rfl

theorem kind_of_enum? {word : String} {l : Literal} (h : enum? word = .ok l) : l.kind = .enum := by
  unfold enum? at h
  split at h
  · cases h
    rfl
  · cases h

theorem kind_of_locale? {tag : String} {l : Literal} (h : locale? tag = .ok l) :
    l.kind = .locale := by
  unfold locale? at h
  split at h
  · cases h
    rfl
  · cases h

/-- A reader makes literals of its kind. -/
theorem kind_of_parse {kind : LiteralKind} {text : List Char} {l : Literal}
    (h : parse kind text = .ok l) : l.kind = kind := by
  cases kind with
  | string =>
    simp only [parse] at h
    split at h
    · cases h
      rfl
    · cases h
  | intRange => exact RangeSort.lawful_ints.kind_of_parse h
  | decimalRange => exact RangeSort.lawful_decimals.kind_of_parse h
  | dateTimeRange => exact RangeSort.lawful_dateTimes.kind_of_parse h
  | enum => exact kind_of_enum? h
  | locale =>
    simp only [parse] at h
    split at h
    · exact kind_of_locale? h
    · cases h
  | multiple => cases h
  | _ =>
    obtain ⟨value, -, rfl⟩ := Outcome.map_eq_ok.mp (mapFault_eq_ok.mp h)
    rfl

end Literal

/-- The values that the literals of a parsed value are made of. -/
def Parsed.scalars (v : Parsed) : List Literal := v.literals.flatMap Literal.scalars

namespace Grammar

/-! ### Tokens -/

variable {token : List Char} {l : Literal}

theorem parse_of_wordLiteral? (h : wordLiteral? token = some l) :
    Literal.parse l.kind token = .ok l := by
  unfold wordLiteral? at h
  split at h
  · rename_i read
    cases h
    rw [Literal.kind_of_parse read, read]
  · have read := Outcome.toOption_eq_some.mp h
    rw [Literal.kind_of_parse read, read]

/-- **The reader of a literal's kind makes the literal of its token.** -/
theorem TokenOf.parse (h : TokenOf token l) : Literal.parse l.kind token = .ok l := by
  cases h with
  | string _ _ read => rw [Literal.kind_of_parse read, read]
  | locale _ read => rw [Literal.kind_of_parse read, read]
  | range _ read => rw [Literal.kind_of_parse read, read]
  | scalar _ read => rw [Literal.kind_of_parse read, read]
  | word _ found => exact parse_of_wordLiteral? found

theorem TokenOf.scalars (h : TokenOf token l) : l.scalars = [l] := by
  apply Literal.scalars_single
  intro several
  have read := h.parse
  rw [several] at read
  cases read

/-- Only the token of a range opens with a bracket. -/
theorem TokenOf.of_bracket (h : TokenOf token l) (bracket : token.head? = some '[') :
    l.kind = rangeKind token := by
  cases h with
  | string quote =>
    cases Option.some.inj bracket
    exact absurd quote (by decide)
  | locale => cases bracket
  | range _ read => exact Literal.kind_of_parse read
  | scalar scalar =>
    obtain ⟨c, rest, rfl, start⟩ := scalar.start
    cases Option.some.inj bracket
    exact absurd start (by decide)
  | word word =>
    obtain ⟨c, rest, rfl, start⟩ := word.start
    cases Option.some.inj bracket
    exact absurd start (by decide)

/-! ### The tokens of trees -/

/-- Each value of a literal comes from one of its tokens. -/
theorem LiteralSpelled.scalars {tokens : List (List Char)} (h : LiteralSpelled l tokens) :
    ∀ scalar ∈ l.scalars, ∃ token ∈ tokens, TokenOf token scalar := by
  induction h with
  | single token =>
    rw [token.scalars]
    simpa using token
  | multiple first second others _ ih =>
    intro scalar hscalar
    rw [Literal.scalars_multiple, ← List.map_cons, ← List.map_cons, List.flatMap_map] at hscalar
    obtain ⟨item, hitem, hscalar⟩ := List.mem_flatMap.mp hscalar
    obtain ⟨token, htoken, made⟩ := ih item hitem scalar hscalar
    have among := subset_commas (List.mem_map_of_mem (f := Prod.snd) hitem) htoken
    exact ⟨token, List.mem_cons_of_mem _ (List.mem_append_left _ among), made⟩

/-- A token is a mark, a keyword or a literal. -/
def HasRole (token : List Char) : Prop :=
  (∃ c ∈ marks, token = [c]) ∨ Word token ∨ ∃ l, TokenOf token l

theorem hasRole_mark {c : Char} (h : c ∈ marks) : HasRole [c] := .inl ⟨c, h, rfl⟩

theorem LiteralSpelled.hasRole {tokens : List (List Char)} (h : LiteralSpelled l tokens) :
    ∀ token ∈ tokens, HasRole token := by
  induction h with
  | single token => simpa using .inr (.inr ⟨_, token⟩)
  | multiple first second others _ ih =>
    exact List.forall_mem_cons.mpr ⟨hasRole_mark (by decide),
      forall_bracketed ih (hasRole_mark (by decide)) (hasRole_mark (by decide))⟩

theorem TreeSpelled.hasRole {tree : Tree} {tokens : List (List Char)}
    (h : TreeSpelled tree tokens) : ∀ token ∈ tokens, HasRole token := by
  induction h with
  | literal h => exact h.hasRole
  | call arguments hw _ ih =>
    exact List.forall_mem_cons.mpr ⟨.inr (.inl hw),
      List.forall_mem_cons.mpr ⟨hasRole_mark (by decide),
        forall_bracketed ih (hasRole_mark (by decide)) (hasRole_mark (by decide))⟩⟩

end Grammar

/-- **What is parsed comes from the tokens of its text**, and there is one way to cut the
text into them. -/
theorem Parsed.tokens_of_parse {text : List Char} {v : Parsed} (h : parse text = .ok v) :
    ∃ tokens, Grammar.Cut tokens text ∧
      (∀ scalar ∈ v.scalars, ∃ token ∈ tokens, Grammar.TokenOf token scalar) ∧
      ∀ token ∈ tokens, Grammar.HasRole token := by
  obtain ⟨tree, tokens, spelled, laidOut, literals, -⟩ := spelled_of_parse h
  have cut : Grammar.Cut tokens text := by
    have whole := Grammar.cuts_tree spelled laidOut Grammar.stops_nil (.ending Grammar.blank_nil)
    rwa [List.append_nil, List.append_nil] at whole
  refine ⟨tokens, cut, ?_, spelled.hasRole⟩
  intro scalar hscalar
  obtain ⟨l, hl, hscalar⟩ := List.mem_flatMap.mp hscalar
  obtain ⟨part, among, spelled⟩ := literals l hl
  obtain ⟨token, htoken, made⟩ := spelled.scalars scalar hscalar
  exact ⟨token, among htoken, made⟩

end CatalogQuery
