import CatalogQuery.Proofs.Grammar.Complete

/-!
# Nothing but spellings is read

What a reader takes from the start of a text is laid out of the tokens of what it has
read, so a text that is read to its end spells its tree. Together with the reading of all
spellings this makes the grammar unambiguous.
-/

namespace CatalogQuery.Grammar

open Text (isBlank skipBlanks)

/-! ### What a reader takes -/

/-- A text is some tokens with blanks before and after each, and then the rest. -/
def StartsWith (tokens : List (List Char)) (text rest : List Char) : Prop :=
  ∃ piece, LaidOut tokens piece ∧ text = piece ++ rest

namespace StartsWith

variable {tokens others : List (List Char)} {text middle rest : List Char}

theorem append (h : StartsWith tokens text middle) (h' : StartsWith others middle rest) :
    StartsWith (tokens ++ others) text rest := by
  obtain ⟨piece, hpiece, rfl⟩ := h
  obtain ⟨piece', hpiece', rfl⟩ := h'
  exact ⟨piece ++ piece', hpiece.append hpiece', (List.append_assoc _ _ _).symm⟩

theorem token (token rest : List Char) : StartsWith [token] (token ++ rest) rest :=
  ⟨token, .single token, rfl⟩

theorem blanks (text : List Char) : StartsWith [] text (skipBlanks text) :=
  ⟨text.takeWhile isBlank, .ending (List.all_eq_true.mp List.all_takeWhile),
    (Text.takeWhile_append_skipBlanks text).symm⟩

theorem of_skipBlanks (h : StartsWith tokens (skipBlanks text) rest) :
    StartsWith tokens text rest :=
  (blanks text).append h

theorem mark {c : Char} (h : skipBlanks text = c :: rest) : StartsWith [[c]] text rest := by
  apply of_skipBlanks
  rw [h]
  exact token [c] rest

end StartsWith

section
variable {α : Type} {P : α → List (List Char) → Prop} {item : Reader α}

/-- What a reader takes from the start of a text are tokens of what it has read. -/
def Takes (P : α → List (List Char) → Prop) (item : Reader α) : Prop :=
  ∀ text a rest, item text = .ok (a, rest) → ∃ tokens, P a tokens ∧ StartsWith tokens text rest

/-- Tokens of further items and a closing bracket. -/
def Further (P : α → List (List Char) → Prop) (closing : Char) (as : List α)
    (tokens : List (List Char)) : Prop :=
  ∃ items : List (α × List (List Char)), as = items.map Prod.fst ∧
    (∀ i ∈ items, P i.1 i.2) ∧ tokens = items.flatMap (fun i => [','] :: i.2) ++ [[closing]]

theorem takes_items (each : Takes P item) (closing : Char) (limit : Nat) :
    Takes (Further P closing) (readItems item closing limit) := by
  intro text as rest h
  induction limit generalizing text as rest with
  | zero => cases h
  | succ limit ih =>
    rw [readItems] at h
    split at h
    · cases h
    · rename_i c after start
      split at h
      · rename_i close
        cases h
        subst close
        exact ⟨_, ⟨[], rfl, by simp, rfl⟩, .mark start⟩
      · split at h
        · rename_i comma
          subst comma
          obtain ⟨⟨first, after₁⟩, hfirst, h⟩ := Outcome.bind_eq_ok.mp h
          obtain ⟨⟨others, after₂⟩, hothers, h⟩ := Outcome.bind_eq_ok.mp h
          cases h
          obtain ⟨tokens, hp, taken⟩ := each _ _ _ hfirst
          obtain ⟨_, ⟨items, rfl, hitems, rfl⟩, further⟩ := ih _ _ _ hothers
          have all : ∀ i ∈ (first, tokens) :: items, P i.1 i.2 :=
            List.forall_mem_cons.mpr ⟨hp, hitems⟩
          refine ⟨_, ⟨(first, tokens) :: items, rfl, all, rfl⟩, ?_⟩
          rw [List.flatMap_cons, List.append_assoc]
          exact (StartsWith.mark start).append (taken.of_skipBlanks.append further)
        · cases h

/-- Tokens of arguments with commas between them, and the closing bracket. -/
def Bracketed (P : α → List (List Char) → Prop) (as : List α) (tokens : List (List Char)) : Prop :=
  ∃ items : List (α × List (List Char)), as = items.map Prod.fst ∧
    (∀ i ∈ items, P i.1 i.2) ∧ tokens = commas (items.map Prod.snd) ++ [[')']]

theorem takes_arguments (each : Takes P item) (limit : Nat) :
    Takes (Bracketed P) (readArguments item limit) := by
  intro text as rest h
  unfold readArguments at h
  split at h
  · rename_i start
    cases h
    exact ⟨_, ⟨[], rfl, by simp, rfl⟩, .mark start⟩
  · obtain ⟨⟨first, after⟩, hfirst, h⟩ := Outcome.bind_eq_ok.mp h
    obtain ⟨⟨others, last⟩, hothers, h⟩ := Outcome.bind_eq_ok.mp h
    cases h
    obtain ⟨tokens, hp, taken⟩ := each _ _ _ hfirst
    obtain ⟨_, ⟨items, rfl, hitems, rfl⟩, further⟩ := takes_items each _ _ _ _ _ hothers
    have all : ∀ i ∈ (first, tokens) :: items, P i.1 i.2 :=
      List.forall_mem_cons.mpr ⟨hp, hitems⟩
    refine ⟨_, ⟨(first, tokens) :: items, rfl, all, rfl⟩, ?_⟩
    rw [commas_cons, List.append_assoc]
    exact taken.of_skipBlanks.append further

end

/-! ### Tokens -/

theorem value_of_orInvalid {start after rest : List Char} {hidden : Bool} {value : Option Literal}
    {l : Literal} (h : orInvalid start hidden after value = .ok (l, rest)) :
    value = some l ∧ after = rest := by
  cases value with
  | none => cases h
  | some l' =>
    cases h
    exact ⟨rfl, rfl⟩

theorem parse_of_literalOf {kind : LiteralKind} {start token after rest : List Char}
    {hidden : Bool} {l : Literal} (h : literalOf kind start hidden token after = .ok (l, rest)) :
    Literal.parse kind token = .ok l ∧ after = rest :=
  (value_of_orInvalid h).imp_left Outcome.toOption_eq_some.mp

theorem scanBetween_eq_ok {opening closing : Char} {inside : Char → Bool}
    {after token rest : List Char}
    (h : scanBetween opening closing inside after = .ok (token, rest)) :
    ∃ content, (∀ c ∈ content, inside c = true) ∧ token = opening :: content ++ [closing] ∧
      opening :: after = token ++ rest := by
  have split := List.takeWhile_append_dropWhile (p := inside) (l := after)
  unfold scanBetween at h
  dsimp only at h
  split at h
  · cases h
  · rename_i c tail dropped
    split at h
    · rename_i close
      cases h
      subst close
      rw [dropped] at split
      refine ⟨after.takeWhile inside, List.all_eq_true.mp List.all_takeWhile, rfl, ?_⟩
      rw [List.cons_append, List.cons_append, List.append_assoc]
      exact congrArg _ split.symm
    · cases h

/-- The first characters of a text that starts with one of the class are a token of it. -/
theorem takeWhile_token {start goes : Char → Bool} {c : Char} (h : start c = true)
    (sub : ∀ c, start c = true → goes c = true) (tail : List Char) :
    (∃ d rest, (c :: tail).takeWhile goes = d :: rest ∧ start d = true) ∧
      ∀ d ∈ (c :: tail).takeWhile goes, goes d = true := by
  refine ⟨⟨c, tail.takeWhile goes, ?_, h⟩, List.all_eq_true.mp List.all_takeWhile⟩
  rw [List.takeWhile_cons, if_pos (sub c h)]

theorem isScalarChar_of_isScalarStart {c : Char} (h : isScalarStart c = true) :
    isScalarChar c = true := by
  simp [isScalarChar, h]

theorem scalar_takeWhile {c : Char} (h : isScalarStart c = true) (tail : List Char) :
    Scalar ((c :: tail).takeWhile isScalarChar) := by
  obtain ⟨start, chars⟩ := takeWhile_token h (fun _ => isScalarChar_of_isScalarStart) tail
  exact ⟨start, chars⟩

theorem isWordChar_of_isWordStart {c : Char} (h : isWordStart c = true) : isWordChar c = true := by
  simp only [isWordStart, isWordChar, Char.isAlphanum, Bool.or_eq_true] at h ⊢
  exact h.imp_left .inl

theorem word_takeWhile {c : Char} (h : isWordStart c = true) (tail : List Char) :
    Word ((c :: tail).takeWhile isWordChar) := by
  obtain ⟨start, chars⟩ := takeWhile_token h (fun _ => isWordChar_of_isWordStart) tail
  exact ⟨start, chars⟩

/-- A token that is read is one token of its literal. -/
theorem tokenOf_of_readToken {hidden : Bool} {text rest : List Char} {l : Literal}
    (h : readToken hidden text = .ok (l, rest)) :
    ∃ token, TokenOf token l ∧ text = token ++ rest := by
  cases text with
  | nil => cases h
  | cons c after =>
    -- The first character tells which sort of token is read.
    unfold readToken at h
    dsimp only at h
    split at h
    · split at h
      · rename_i token left scanned
        obtain ⟨mark, inside, quote, quoted, rfl, same⟩ := Text.scanQuoted?_iff.mp scanned
        obtain ⟨parse, rfl⟩ := parse_of_literalOf h
        exact ⟨_, .string quote quoted parse, same⟩
      · cases h
    · split at h
      · rename_i tick
        subst tick
        obtain ⟨⟨token, left⟩, scanned, h⟩ := Outcome.bind_eq_ok.mp h
        obtain ⟨tag, inside, rfl, same⟩ := scanBetween_eq_ok scanned
        obtain ⟨parse, rfl⟩ := parse_of_literalOf h
        refine ⟨_, .locale ?_ parse, same⟩
        intro tick
        exact absurd (inside _ tick) (by decide)
      · split at h
        · rename_i bracket
          subst bracket
          obtain ⟨⟨token, left⟩, scanned, h⟩ := Outcome.bind_eq_ok.mp h
          obtain ⟨content, inside, rfl, same⟩ := scanBetween_eq_ok scanned
          obtain ⟨parse, rfl⟩ := parse_of_literalOf h
          refine ⟨_, .range ?_ parse, same⟩
          intro c hc
          simpa using inside c hc
        · split at h
          · rename_i start
            obtain ⟨parse, rfl⟩ := parse_of_literalOf h
            exact ⟨_, .scalar (scalar_takeWhile start after) parse,
              List.takeWhile_append_dropWhile.symm⟩
          · split at h
            · rename_i start
              obtain ⟨found, rfl⟩ := value_of_orInvalid h
              exact ⟨_, .word (word_takeWhile start after) found,
                List.takeWhile_append_dropWhile.symm⟩
            · cases h

/-! ### Literals -/

theorem readComma_eq_ok {text rest : List Char} (h : readComma text = .ok rest) :
    ∃ after, skipBlanks text = ',' :: after ∧ rest = skipBlanks after := by
  unfold readComma at h
  split at h
  · rename_i after start
    cases h
    exact ⟨after, start, rfl⟩
  · cases h

/-- **What is read as a literal spells it.** -/
theorem takes_literal (depth : Nat) (hidden : Bool) :
    Takes LiteralSpelled (readLiteral depth hidden) := by
  induction depth generalizing hidden with
  | zero =>
    intro text l rest h
    cases h
  | succ depth ih =>
    intro text l rest h
    unfold readLiteral at h
    split at h
    · rename_i inside
      obtain ⟨⟨first, rest₁⟩, hfirst, h⟩ := Outcome.bind_eq_ok.mp h
      obtain ⟨rest₂, hcomma, h⟩ := Outcome.bind_eq_ok.mp h
      obtain ⟨⟨second, rest₃⟩, hsecond, h⟩ := Outcome.bind_eq_ok.mp h
      obtain ⟨⟨others, rest₄⟩, hothers, h⟩ := Outcome.bind_eq_ok.mp h
      cases h
      obtain ⟨after, comma, rfl⟩ := readComma_eq_ok hcomma
      obtain ⟨tokens₁, spelled₁, taken₁⟩ := ih true _ _ _ hfirst
      obtain ⟨tokens₂, spelled₂, taken₂⟩ := ih true _ _ _ hsecond
      obtain ⟨_, ⟨items, rfl, spelled, rfl⟩, further⟩ := takes_items (ih true) _ _ _ _ _ hothers
      refine ⟨_, .multiple (first, tokens₁) (second, tokens₂) items
        (List.forall_mem_cons.mpr ⟨spelled₁, List.forall_mem_cons.mpr ⟨spelled₂, spelled⟩⟩), ?_⟩
      rw [commas_cons, List.flatMap_cons]
      simp only [List.append_assoc, List.cons_append]
      have two := (StartsWith.mark comma).append (taken₂.of_skipBlanks.append further)
      exact (StartsWith.token ['\x7b'] inside).append (taken₁.of_skipBlanks.append two)
    · obtain ⟨token, tokenOf, rfl⟩ := tokenOf_of_readToken h
      exact ⟨[token], .single tokenOf, .token token rest⟩

/-! ### Trees -/

/-- Trees in brackets after a keyword are the arguments of a call. -/
theorem treeSpelled_call {word : List Char} (hw : Word word) (source : List Char)
    {items : List (RawNode × List (List Char))} (each : ∀ i ∈ items, TreeSpelled i.1.tree i.2) :
    TreeSpelled (RawNode.call (String.ofList word) source (items.map Prod.fst)).tree
      (word :: ['('] :: commas (items.map Prod.snd) ++ [[')']]) := by
  have arguments : ∀ a ∈ items.map (fun i => (i.1.tree, i.2)), TreeSpelled a.1 a.2 := by
    intro a ha
    obtain ⟨i, hi, rfl⟩ := List.mem_map.mp ha
    exact each i hi
  have spelled := TreeSpelled.call _ hw arguments
  simp only [List.map_map] at spelled
  rw [RawNode.tree, RawNode.trees_eq, List.map_map]
  exact spelled

theorem takes_wordNode {item : Reader RawNode}
    (each : Takes (fun raw tokens => TreeSpelled raw.tree tokens) item) {limit : Nat} {c : Char}
    {tail rest : List Char} (start : isWordStart c = true) {raw : RawNode}
    (h : readWordNode item limit (c :: tail) = .ok (raw, rest)) :
    ∃ tokens, TreeSpelled raw.tree tokens ∧ StartsWith tokens (c :: tail) rest := by
  have word := word_takeWhile start tail
  have split := List.takeWhile_append_dropWhile (p := isWordChar) (l := c :: tail)
  rw [readWordNode, scanWord] at h
  dsimp only at h
  generalize (c :: tail).takeWhile isWordChar = token at h word split
  generalize (c :: tail).dropWhile isWordChar = left at h split
  rw [← split]
  have taken := StartsWith.token token left
  split at h
  · rename_i inside bracket
    obtain ⟨⟨arguments, after⟩, harguments, h⟩ := Outcome.bind_eq_ok.mp h
    cases h
    obtain ⟨_, ⟨items, rfl, spelled, rfl⟩, bracketed⟩ := takes_arguments each _ _ _ _ harguments
    refine ⟨_, treeSpelled_call word _ spelled, ?_⟩
    exact taken.append ((StartsWith.mark bracket).append bracketed)
  · split at h
    · rename_i l found
      cases h
      exact ⟨_, .literal (.single (.word word found)), taken.append (.blanks left)⟩
    · cases h

/-- **What is read as a node spells its tree.** -/
theorem takes_node (depth : Nat) :
    Takes (fun raw tokens => TreeSpelled raw.tree tokens) (readNode depth) := by
  induction depth with
  | zero =>
    intro text raw rest h
    cases h
  | succ depth ih =>
    intro text raw rest h
    rw [readNode] at h
    split at h
    · rename_i start
      cases text with
      | nil => cases start
      | cons c tail => exact takes_wordNode ih start h
    · obtain ⟨⟨l, after⟩, hl, same⟩ := Outcome.map_eq_ok.mp h
      cases same
      obtain ⟨tokens, spelled, taken⟩ := takes_literal _ _ _ _ _ hl
      exact ⟨tokens, .literal spelled, taken⟩

/-- **A text that is read spells its tree.** -/
theorem spells_of_readRoot {text : List Char} {raw : RawNode} (h : readRoot text = .ok raw) :
    Spells raw.tree text := by
  obtain ⟨⟨node, rest⟩, read, root⟩ := Outcome.bind_eq_ok.mp h
  dsimp only at root
  split at root
  · rename_i done
    cases root
    obtain ⟨tokens, spelled, taken⟩ := takes_node _ _ _ _ read
    have whole := taken.of_skipBlanks.append (.blanks rest)
    rw [List.isEmpty_iff.mp done, List.append_nil] at whole
    obtain ⟨piece, laidOut, same⟩ := whole
    rw [List.append_nil] at same
    exact ⟨tokens, spelled, same ▸ laidOut⟩
  · cases root

/-- The texts that are read as a tree are its spellings. -/
theorem spells_iff_readRoot {tree : Tree} {text : List Char} :
    Spells tree text ↔ ∃ raw, readRoot text = .ok raw ∧ raw.tree = tree := by
  constructor
  · exact readRoot_of_spells
  · rintro ⟨raw, read, rfl⟩
    exact spells_of_readRoot read

/-- **The grammar is unambiguous.** A text spells one tree at most. -/
theorem Spells.unique {tree tree' : Tree} {text : List Char} (h : Spells tree text)
    (h' : Spells tree' text) : tree = tree' := by
  obtain ⟨raw, read, rfl⟩ := spells_iff_readRoot.mp h
  obtain ⟨raw', read', rfl⟩ := spells_iff_readRoot.mp h'
  rw [read] at read'
  cases read'
  rfl

end CatalogQuery.Grammar
