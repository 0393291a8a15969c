import CatalogQuery.Proofs.Grammar.Roots
import CatalogQuery.Proofs.Parse.Errors

namespace CatalogQuery

/-- The sorts of texts; constraints are told apart by their categories. -/
inductive Entry
  | query
  | literal
  | constraint (category : Category)
  deriving DecidableEq

namespace Entry

/-- What the entry point of a sort makes of a text. -/
def read (text : List Char) : Entry → Except ParseError Parsed
  | .query => (parseQuery text).map .query
  | .literal => (parseLiteral text).map .literal
  | .constraint c => (parseConstraintAs c text).map fun tree => .constraint tree.toAny

/-- How the entry point of a sort refuses what a text was parsed to. -/
def refusal (found : Parsed) (place : Text.Position) : Entry → ParseError
  | .query => .unexpectedRoot (.production .query) (.production found.production) place
  | .literal => .unexpectedRoot (.production .literal) (.production found.production) place
  | .constraint c =>
    match found with
    | .constraint any => .unexpectedRoot (.category c) (.constraint any.category any.keyword) place
    | other => .unexpectedRoot (.production .constraint) (.production other.production) place

end Entry

namespace Parsed

def entry : Parsed → Entry
  | .query _ => .query
  | .literal _ => .literal
  | .constraint any => .constraint any.category

def keyword? : Parsed → Option String
  | .query _ => some Query.keyword
  | .constraint any => some any.keyword
  | .literal _ => none

end Parsed

variable {text : List Char} {v : Parsed} {e : ParseError}

theorem parseConstraint_eq_ok {any : AnyConstraint} :
    parseConstraint text = .ok any ↔ parse text = .ok (.constraint any) := by
  rw [← Outcome.toOption_eq_some, Grammar.toOption_parseConstraint, Option.bind_eq_some_iff,
    ← Outcome.toOption_eq_some]
  constructor
  · rintro ⟨found, parsed, own⟩
    cases found with
    | constraint any' =>
      cases own
      exact parsed
    | _ => cases own
  · intro parsed
    exact ⟨_, parsed, rfl⟩

/-- A text that is not parsed is refused alike by all entry points. -/
theorem parseConstraint_of_parse_error (h : parse text = .error e) :
    parseConstraint text = .error e := by
  rw [parseConstraint, h]
  rfl

namespace Entry

theorem read_of_parse_error (h : parse text = .error e) (entry : Entry) :
    entry.read text = .error e := by
  cases entry with
  | query => rw [read, parseQuery, h]; rfl
  | literal => rw [read, parseLiteral, h]; rfl
  | constraint c => rw [read, parseConstraintAs, parseConstraint_of_parse_error h]; rfl

/-- A constraint is accepted as one of its category only. -/
theorem read_of_parse_constraint {any : AnyConstraint} (h : parse text = .ok (.constraint any))
    (c : Category) : (Entry.constraint c).read text =
      if c = any.category then .ok (.constraint any)
      else .error ((Entry.constraint c).refusal (.constraint any) (.firstToken text)) := by
  rw [read, parseConstraintAs, parseConstraint_eq_ok.mpr h]
  obtain ⟨category, tree⟩ := any
  by_cases own : c = category
  · cases own
    rw [if_pos rfl]
    exact Outcome.map_eq_ok.mpr ⟨tree, by simp [bind, Except.bind, pure, Except.pure], rfl⟩
  · have foreign : AnyConstraint.as? c ⟨category, tree⟩ = none := dif_neg (Ne.symm own)
    rw [if_neg own]
    simp only [bind, Except.bind, foreign]
    rfl

/-- **A parsed text is accepted by the entry point of its sort**, and refused by all others. -/
theorem read_of_parse_ok (h : parse text = .ok v) (entry : Entry) : entry.read text =
    if entry = v.entry then .ok v else .error (entry.refusal v (.firstToken text)) := by
  cases entry with
  | query =>
    rw [read, parseQuery, h]
    cases v <;> rfl
  | literal =>
    rw [read, parseLiteral, h]
    cases v <;> rfl
  | constraint c =>
    cases v with
    | constraint any =>
      rw [read_of_parse_constraint h]
      simp only [Parsed.entry, Entry.constraint.injEq]
    | _ =>
      rw [read, parseConstraintAs, parseConstraint, h]
      rfl

end Entry

/-! ### Where the root starts -/

namespace Grammar

open Text (isBlank skipBlanks)

/-- The source of a call that is read as a node is the text it is read from. -/
theorem source_of_readNode {depth : Nat} {keyword : String} {source rest : List Char}
    {raws : List RawNode} (h : readNode depth text = .ok (.call keyword source raws, rest)) :
    source = text := by
  cases depth with
  | zero => cases h
  | succ depth =>
    rw [readNode] at h
    split at h
    · unfold readWordNode at h
      dsimp only at h
      split at h
      · obtain ⟨_, -, same⟩ := Outcome.bind_eq_ok.mp h
        cases same
        rfl
      · split at h <;> cases h
    · obtain ⟨_, -, same⟩ := Outcome.map_eq_ok.mp h
      cases same

/-- The root of a text starts at its first character that is not blank. -/
theorem source_of_readRoot {keyword : String} {source : List Char} {raws : List RawNode}
    (h : readRoot text = .ok (.call keyword source raws)) : source = skipBlanks text := by
  obtain ⟨⟨node, rest⟩, read, root⟩ := Outcome.bind_eq_ok.mp h
  dsimp only at root
  split at root
  · cases root
    exact source_of_readNode read
  · cases root

/-- A text is parsed if its root is read and can be resolved. -/
theorem parse_eq_ok : parse text = .ok v ↔
    ∃ raw, readRoot text = .ok raw ∧ resolveRoot text raw = .ok v := by
  unfold parse
  cases readRoot text <;> simp

/-- A text of blanks is not read. -/
theorem skipBlanks_ne_nil {raw : RawNode} (h : readRoot text = .ok raw) : skipBlanks text ≠ [] := by
  intro none
  rw [readRoot, none] at h
  cases h

/-- What a raw tree is parsed to has its keyword, or none if it is a literal. -/
theorem keyword_of_resolveRoot {raw : RawNode} {keyword : String}
    (h : resolveRoot text raw = .ok v) (named : v.keyword? = some keyword) :
    ∃ source raws, raw = .call keyword source raws := by
  cases raw with
  | literal value =>
    cases h
    cases named
  | call found source raws =>
    refine ⟨source, raws, ?_⟩
    rw [resolveRoot] at h
    split at h
    · rename_i query
      obtain ⟨q, -, rfl⟩ := Outcome.map_eq_ok.mp h
      cases named
      rw [query]
    · obtain ⟨arguments, -, h⟩ := Outcome.bind_eq_ok.mp h
      obtain ⟨any, made, rfl⟩ := Outcome.map_eq_ok.mp h
      obtain ⟨c, kind, rfl, built⟩ := buildCall_eq_ok.mp made
      obtain ⟨literals, children, -, rfl, -⟩ := build_eq_ok.mp built
      cases named
      rfl

end Grammar

open Grammar in
/-- **The entry points partition the texts that are parsed.** A text that is not parsed is
refused by all of them with the same error. One that is parsed is accepted by exactly one, with
what it was parsed to. The others refuse it at its first character that is not blank, and there
the keyword of a query or a constraint starts, as far as the reader has marked it too. -/
theorem entries_partition_texts (text : List Char) :
    (∀ e, parse text = .error e →
      parseConstraint text = .error e ∧ ∀ entry : Entry, entry.read text = .error e) ∧
    ∀ v, parse text = .ok v →
      (∀ (entry : Entry) (w : Parsed), entry.read text = .ok w ↔ entry = v.entry ∧ w = v) ∧
      (∀ any, parseConstraint text = .ok any ↔ v = .constraint any) ∧
      ∃ blanks first rest, text = blanks ++ first :: rest ∧ Blank blanks ∧
        Text.isBlank first = false ∧
        (∀ entry ≠ v.entry, entry.read text = .error (entry.refusal v (.after blanks))) ∧
        ∀ keyword, v.keyword? = some keyword → keyword.toList <+: first :: rest ∧
          ∃ raws, readRoot text = .ok (.call keyword (first :: rest) raws) ∧
            Site.place ⟨text, first :: rest⟩ = .after blanks := by
  constructor
  · intro e refused
    exact ⟨parseConstraint_of_parse_error refused, Entry.read_of_parse_error refused⟩
  · intro v parsed
    have answers := Entry.read_of_parse_ok parsed
    obtain ⟨raw, root, resolved⟩ := parse_eq_ok.mp parsed
    obtain ⟨first, rest, start⟩ := List.exists_cons_of_ne_nil (skipBlanks_ne_nil root)
    have split := Text.takeWhile_append_skipBlanks text
    rw [start] at split
    refine ⟨?_, ?_, text.takeWhile Text.isBlank, first, rest, split.symm, ?_, ?_, ?_, ?_⟩
    · intro entry w
      rw [answers]
      split
      · rename_i own
        rw [Except.ok.injEq, and_iff_right own, eq_comm]
      · rename_i other
        exact iff_of_false nofun fun accepted => other accepted.1
    · intro any
      rw [parseConstraint_eq_ok, parsed, Except.ok.injEq]
    · exact List.all_eq_true.mp List.all_takeWhile
    · have leaves := Text.leaves_dropWhile Text.isBlank text
      rw [← Text.skipBlanks, start] at leaves
      exact Text.leaves_cons.mp leaves
    · intro entry other
      rw [answers, if_neg other, Text.Position.firstToken_eq]
    · intro keyword named
      obtain ⟨source, raws, rfl⟩ := keyword_of_resolveRoot resolved named
      obtain rfl : source = first :: rest := (source_of_readRoot root).trans start
      refine ⟨?_, raws, root, ?_⟩
      · have own : ⟨keyword, first :: rest, raws⟩ ∈
            (RawNode.call keyword (first :: rest) raws).calls := by
          simp [RawNode.calls_call]
        obtain ⟨blanks, inside, -, stands⟩ := (stands_of_readRoot root _ own).keyword
        exact ⟨blanks ++ '(' :: inside, stands.symm⟩
      · rw [Site.place]
        nth_rewrite 1 [← split]
        exact Text.Position.ofRemaining_append _ _

/-- A filter on the second line, after a space of three bytes. -/
def indentedFilter : List Char := "\n\u3000 isNull('a')".toList

theorem indentedFilter_accepted_once :
    (∀ entry : Entry, (∃ v, entry.read indentedFilter = .ok v) ↔ entry = .constraint .filter) ∧
    (∃ blanks rest, indentedFilter = blanks ++ rest ∧ "isNull".toList <+: rest ∧
      Entry.query.read indentedFilter =
        .error (.unexpectedRoot (.production .query) (.production .constraint) (.after blanks))) ∧
    ∀ entry : Entry, ∃ e, entry.read "isNull(".toList = .error e := by
  have read : (parse indentedFilter).toOption.map (fun v => (v.entry, v.keyword?)) =
      some (.constraint .filter, some "isNull") := by
    decide +kernel
  have unread : (parse "isNull(".toList).toOption.isNone = true := by decide +kernel
  obtain ⟨v, parsed, known⟩ := Outcome.toOption_map_eq_some.mp read
  obtain ⟨sort, keyword⟩ := Prod.mk.inj known
  obtain ⟨e, refused⟩ := Outcome.toOption_eq_none.mp (Option.isNone_iff_eq_none.mp unread)
  obtain ⟨once, -, blanks, first, rest, split, -, -, others, root⟩ :=
    (entries_partition_texts indentedFilter).2 v parsed
  rw [sort] at once others
  refine ⟨?_, ⟨blanks, first :: rest, split, (root _ keyword).1, ?_⟩, ?_⟩
  · intro entry
    constructor
    · rintro ⟨w, accepted⟩
      exact ((once entry w).mp accepted).1
    · intro own
      exact ⟨v, (once entry v).mpr ⟨own, rfl⟩⟩
  · cases v with
    | constraint any => exact others .query (by decide)
    | query q => cases sort
    | literal l => cases sort
  · intro entry
    exact ⟨e, ((entries_partition_texts _).1 e refused).2 entry⟩

end CatalogQuery
