import CatalogQuery.Proofs.Grammar.Spelled

namespace CatalogQuery.Grammar

open Text (Leaves isBlank skipBlanks)

/-! ### Tokens -/

theorem literalOf_of_parse {kind : LiteralKind} {token : List Char} {l : Literal}
    (h : Literal.parse kind token = .ok l) (start : List Char) (hidden : Bool)
    (rest : List Char) : literalOf kind start hidden token rest = .ok (l, rest) := by
  rw [literalOf, h]
  rfl

theorem readToken_of {token : List Char} {l : Literal} (h : TokenOf token l) {rest : List Char}
    (stops : Stops rest) (hidden : Bool) : readToken hidden (token ++ rest) = .ok (l, rest) := by
  cases h with
  | string quote quoted parse =>
    rw [readToken_quoted quote quoted]
    exact literalOf_of_parse parse _ _ _
  | locale tick parse =>
    rw [readToken_locale tick]
    exact literalOf_of_parse parse _ _ _
  | range inside parse =>
    rw [readToken_range inside]
    exact literalOf_of_parse parse _ _ _
  | scalar scalar parse =>
    rw [readToken_scalar scalar stops.leaves_scalar]
    exact literalOf_of_parse parse _ _ _
  | word word found =>
    rw [readToken_word word stops.leaves_word, found]
    rfl

/-- A token is a word, or it starts with no blank, no letter and no bracket of a list. -/
theorem TokenOf.starts {token : List Char} {l : Literal} (h : TokenOf token l) :
    (Word token ∧ wordLiteral? token = some l) ∨ ∃ c tail, token = c :: tail ∧
      isWordStart c = false ∧ isBlank c = false ∧ c ≠ ')' ∧ c ≠ '\x7b' := by
  cases h with
  | string quote quoted parse =>
    refine .inr ⟨_, _, rfl, ?_⟩
    rcases quote with rfl | rfl
    · decide
    · decide
  | locale tick parse => exact .inr ⟨_, _, rfl, by decide⟩
  | range inside parse => exact .inr ⟨_, _, rfl, by decide⟩
  | scalar scalar parse =>
    obtain ⟨c, tail, text, start⟩ := scalar.start
    exact .inr ⟨c, tail, text, isWordStart_of_isScalarStart start, isBlank_of_isScalarStart start,
      Text.ne_of_class start (by decide), Text.ne_of_class start (by decide)⟩
  | word word found => exact .inl ⟨word, found⟩

theorem TokenOf.opens {token : List Char} {l : Literal} (h : TokenOf token l) :
    ∃ c tail, token = c :: tail ∧ isBlank c = false ∧ c ≠ ')' ∧ c ≠ '\x7b' := by
  rcases h.starts with ⟨word, -⟩ | ⟨c, tail, text, -, blank, round, curly⟩
  · obtain ⟨c, tail, text, start⟩ := word.start
    exact ⟨c, tail, text, isBlank_of_isWordStart start, Text.ne_of_class start (by decide),
      Text.ne_of_class start (by decide)⟩
  · exact ⟨c, tail, text, blank, round, curly⟩

/-! ### Literals -/

section
variable {α β : Type} {item : Reader α} {meaning : α → Option β}

/-- What is read of a text that says something. -/
theorem Reads.taken {tokens : List (List Char)} {b : β} (h : Reads item meaning tokens (some b))
    {text rest : List Char} (laidOut : LaidOut tokens text) (stops : Stops rest) :
    ∃ a after, item (skipBlanks (text ++ rest)) = .ok (a, after) ∧ meaning a = some b ∧
      skipBlanks after = skipBlanks rest :=
  means_eq_some (h text rest laidOut stops)

end

theorem LiteralSpelled.opens {l : Literal} {tokens : List (List Char)}
    (h : LiteralSpelled l tokens) : ∃ t ts, tokens = t :: ts ∧ Opens t := by
  cases h with
  | single token =>
    obtain ⟨c, tail, text, blank, round, -⟩ := token.opens
    exact ⟨_, _, rfl, c, tail, text, blank, round⟩
  | multiple first second others each => exact ⟨_, _, rfl, _, _, rfl, by decide, by decide⟩

/-- There are not more items than tokens of all of them, and no item has more. -/
theorem length_commas {γ : Type} {tokens : γ → List (List Char)} {items : List γ}
    (opens : ∀ i ∈ items, ∃ t ts, tokens i = t :: ts ∧ Opens t) :
    items.length ≤ (commas (items.map tokens)).length ∧
      ∀ i ∈ items, (tokens i).length ≤ (commas (items.map tokens)).length := by
  have nonempty : ∀ part ∈ items.map tokens, part ≠ [] := by
    intro part hp
    obtain ⟨i, hi, rfl⟩ := List.mem_map.mp hp
    obtain ⟨t, ts, same, -⟩ := opens i hi
    rw [same]
    exact List.cons_ne_nil t ts
  obtain ⟨count, short⟩ := length_intercalate [[',']] nonempty
  rw [List.length_map] at count
  exact ⟨count, fun i hi => short _ (List.mem_map_of_mem hi)⟩

theorem commas_cons {γ : Type} (tokens : γ → List (List Char)) (i : γ) (items : List γ) :
    commas ((i :: items).map tokens) = tokens i ++ items.flatMap fun i => [','] :: tokens i := by
  rw [commas, List.map_cons, intercalate_cons, List.flatMap_map]
  rfl

theorem readLiteral_token {token : List Char} {l : Literal} (h : TokenOf token l) (depth : Nat)
    (hidden : Bool) : Reads (readLiteral (depth + 1) hidden) some [token] (some l) := by
  intro text rest laidOut stops
  obtain ⟨c, tail, rfl, blank, -, curly⟩ := h.opens
  obtain ⟨after, ha, start⟩ := laidOut.skipBlanks_eq blank rest
  cases ha with
  | ending ha =>
    have read := readToken_of h (stops.after_blanks ha) hidden
    rw [List.cons_append] at read
    rw [start, readLiteral]
    · rw [read]
      simp [means, Text.skipBlanks_append ha]
    · rintro _ ⟨⟩
      exact curly rfl

/-- Two items or more in braces are read, if each of them is. -/
theorem readLiteral_multiple {first second : Literal × List (List Char)}
    {others : List (Literal × List (List Char))} {depth : Nat}
    (read : ∀ item ∈ first :: second :: others,
      Reads (readLiteral depth true) some item.2 (some item.1))
    (hl : others.length < depth + 1) (hidden : Bool) :
    Reads (readLiteral (depth + 1) hidden) some
      (['\x7b'] :: commas ((first :: second :: others).map Prod.snd) ++ [['\x7d']])
      (some (.multiple first.1 second.1 (others.map Prod.fst))) := by
  intro text rest laidOut stops
  -- The text falls into the first item, a comma, the second item and the rest.
  rw [List.cons_append, commas_cons, List.append_assoc] at laidOut
  obtain ⟨inside, hinside, start⟩ := laidOut.skipBlanks_eq (by decide) rest
  obtain ⟨text₁, further₁, rfl, htext₁, hfurther₁⟩ := LaidOut.append_iff.mp hinside
  obtain ⟨a, rest₁, read₁, same₁, blank₁⟩ :=
    (read first (by simp)).taken htext₁ (stops_further (.inr rfl) hfurther₁ rest)
  rw [List.flatMap_cons, List.append_assoc, List.cons_append] at hfurther₁
  obtain ⟨inside₂, hinside₂, comma⟩ := hfurther₁.skipBlanks_eq (by decide) rest
  obtain ⟨text₂, further₂, rfl, htext₂, hfurther₂⟩ := LaidOut.append_iff.mp hinside₂
  obtain ⟨b, rest₂, read₂, same₂, blank₂⟩ :=
    (read second (by simp)).taken htext₂ (stops_further (.inr rfl) hfurther₂ rest)
  have further := readItems_laidOut (.inr rfl) (fun item hitem => read item (by simp [hitem])) hl
    hfurther₂ rest blank₂
  rw [mapM_some_map] at further
  obtain ⟨ls, rest₃, read₃, same₃, blank₃⟩ := means_eq_some further
  cases same₁
  cases same₂
  rw [mapM_some] at same₃
  cases same₃
  have value : readLiteral (depth + 1) hidden (skipBlanks (text ++ rest)) =
      .ok (.multiple first.1 second.1 (others.map Prod.fst), rest₃) := by
    rw [start, readLiteral, List.nil_append, List.append_assoc]
    refine Outcome.bind_of_ok read₁ (Outcome.bind_of_ok (readComma_of (blank₁.trans comma)) ?_)
    rw [List.nil_append, List.append_assoc]
    exact Outcome.bind_of_ok read₂ (Outcome.bind_of_ok read₃ rfl)
  rw [value]
  simp [means, blank₃]

/-- **A literal is read from its tokens**, if braces may nest as deep as there are
tokens. -/
theorem readLiteral_spelled {l : Literal} {tokens : List (List Char)} (h : LiteralSpelled l tokens)
    {depth : Nat} (hd : tokens.length ≤ depth) (hidden : Bool) :
    Reads (readLiteral depth hidden) some tokens (some l) := by
  induction h generalizing depth hidden with
  | single token =>
    obtain ⟨depth, rfl⟩ : ∃ n, depth = n + 1 := Nat.exists_eq_add_one.mpr hd
    exact readLiteral_token token depth hidden
  | multiple first second others each ih =>
    obtain ⟨count, short⟩ := length_commas fun item hitem => (each item hitem).opens
    simp only [List.cons_append, List.length_cons, List.length_append] at hd count
    obtain ⟨depth, rfl⟩ : ∃ n, depth = n + 1 := ⟨depth - 1, by omega⟩
    refine readLiteral_multiple (fun item hitem => ih item hitem ?_ true) (by omega) hidden
    have := short item hitem
    omega

/-! ### Trees -/

theorem LiteralSpelled.starts {l : Literal} {tokens : List (List Char)}
    (h : LiteralSpelled l tokens) :
    (∃ token, tokens = [token] ∧ Word token ∧ wordLiteral? token = some l) ∨
      ∃ c tail ts, tokens = (c :: tail) :: ts ∧ isWordStart c = false ∧ isBlank c = false := by
  cases h with
  | @single token _ h =>
    rcases h.starts with ⟨word, found⟩ | ⟨c, tail, rfl, start, blank, -⟩
    · exact .inl ⟨token, rfl, word, found⟩
    · exact .inr ⟨c, tail, [], rfl, start, blank⟩
  | multiple first second others each => exact .inr ⟨_, _, _, rfl, by decide, by decide⟩

theorem TreeSpelled.opens {tree : Tree} {tokens : List (List Char)} (h : TreeSpelled tree tokens) :
    ∃ t ts, tokens = t :: ts ∧ Opens t := by
  cases h with
  | literal h => exact h.opens
  | @call word arguments hw each =>
    have opens := opens_word hw []
    rw [List.append_nil] at opens
    exact ⟨word, _, rfl, opens⟩

/-- No word goes on before an opening bracket. -/
theorem leaves_of_bracket {rest inside : List Char} (h : skipBlanks rest = '(' :: inside) :
    Leaves isWordChar rest := by
  apply leaves_of_skipBlanks isWordChar_of_isBlank
  rw [h]
  exact Text.leaves_cons.mpr (by decide)

theorem readNode_literalSpelled {l : Literal} {tokens : List (List Char)}
    (h : LiteralSpelled l tokens) {depth : Nat} (hd : tokens.length ≤ depth) :
    Reads (readNode depth) (fun raw => some raw.tree) tokens (some (.literal l)) := by
  intro text rest laidOut stops
  rcases h.starts with ⟨token, rfl, word, found⟩ | ⟨c, tail, ts, rfl, start, blank⟩
  · obtain ⟨c, tail, rfl, start⟩ := word.start
    obtain ⟨after, ha, same⟩ := laidOut.skipBlanks_eq (isBlank_of_isWordStart start) rest
    cases ha with
    | ending ha =>
      have read := readNode_word word hd (stops.after_blanks ha) found
      rw [List.cons_append] at read
      rw [same, read]
      simp [means, Text.skipBlanks_append ha, RawNode.tree]
  · obtain ⟨depth, rfl⟩ : ∃ n, depth = n + 1 := Nat.exists_eq_add_one.mpr
      (Nat.lt_of_lt_of_le (Nat.succ_pos _) hd)
    have read := readLiteral_spelled h hd false text rest laidOut stops
    obtain ⟨after, -, same⟩ := laidOut.skipBlanks_eq blank rest
    rw [readNode_other same start]
    exact means_map read fun _ => rfl

/-- A keyword with trees in brackets is read, if each of the trees is. -/
theorem readNode_callSpelled {word : List Char} (hw : Word word)
    {arguments : List (Tree × List (List Char))} {depth : Nat}
    (read : ∀ a ∈ arguments, Reads (readNode depth) (fun raw => some raw.tree) a.2 (some a.1))
    (opens : ∀ a ∈ arguments, ∃ t ts, a.2 = t :: ts ∧ Opens t)
    (hl : arguments.length ≤ depth + 1) :
    Reads (readNode (depth + 1)) (fun raw => some raw.tree)
      (word :: ['('] :: commas (arguments.map Prod.snd) ++ [[')']])
      (some (.call (String.ofList word) (arguments.map Prod.fst))) := by
  intro text rest laidOut stops
  rw [List.cons_append, List.cons_append] at laidOut
  obtain ⟨c, tail, rfl, start⟩ := hw.start
  obtain ⟨after, hafter, same⟩ := laidOut.skipBlanks_eq (isBlank_of_isWordStart start) rest
  obtain ⟨inside, hinside, bracket⟩ := hafter.skipBlanks_eq (by decide) rest
  have below := readArguments_laidOut read opens hl hinside rest
  rw [mapM_some_map] at below
  obtain ⟨raws, rest', read', said, blank⟩ := means_eq_some below
  rw [mapM_some_map] at said
  have value : readNode (depth + 1) (skipBlanks (text ++ rest)) =
      .ok (.call (String.ofList (c :: tail)) (c :: tail ++ (after ++ rest)) raws, rest') := by
    rw [same, ← List.cons_append, readNode, if_pos (head_append hw), readWordNode,
      scanWord_append hw (leaves_of_bracket bracket)]
    simp only [bracket]
    exact Outcome.bind_of_ok read' rfl
  rw [value]
  simp only [means, Outcome.toOption_ok, Option.bind_some, RawNode.tree, RawNode.trees_eq, blank,
    Option.some.inj said]

/-- **A tree is read from its tokens**, if calls may nest as deep as there are tokens. -/
theorem readNode_spelled {tree : Tree} {tokens : List (List Char)} (h : TreeSpelled tree tokens)
    {depth : Nat} (hd : tokens.length ≤ depth) :
    Reads (readNode depth) (fun raw => some raw.tree) tokens (some tree) := by
  induction h generalizing depth with
  | literal h => exact readNode_literalSpelled h hd
  | call arguments hw each ih =>
    have opens : ∀ a ∈ arguments, ∃ t ts, a.2 = t :: ts ∧ Opens t := fun a ha => (each a ha).opens
    obtain ⟨count, short⟩ := length_commas opens
    simp only [List.cons_append, List.length_cons, List.length_append] at hd
    obtain ⟨depth, rfl⟩ : ∃ n, depth = n + 1 := ⟨depth - 1, by omega⟩
    refine readNode_callSpelled hw (fun a ha => ih a ha ?_) opens (by omega)
    have := short a ha
    omega

/-! ### Whole texts -/

theorem TokenOf.ne_nil {token : List Char} {l : Literal} (h : TokenOf token l) : token ≠ [] := by
  obtain ⟨c, tail, rfl, -⟩ := h.opens
  exact List.cons_ne_nil c tail

theorem mem_commas {parts : List (List (List Char))} {t : List Char} (h : t ∈ commas parts) :
    t = [','] ∨ ∃ part ∈ parts, t ∈ part :=
  (mem_intercalate h).imp_left List.mem_singleton.mp

/-- The tokens between brackets have each property that those of the items and the marks
have. -/
theorem forall_bracketed {P : List Char → Prop} {γ : Type} {tokens : γ → List (List Char)}
    {items : List γ} {closing : Char} (each : ∀ i ∈ items, ∀ t ∈ tokens i, P t) (comma : P [','])
    (last : P [closing]) : ∀ t ∈ commas (items.map tokens) ++ [[closing]], P t := by
  intro t ht
  rcases List.mem_append.mp ht with ht | ht
  · rcases mem_commas ht with rfl | ⟨part, hpart, ht⟩
    · exact comma
    · obtain ⟨i, hi, rfl⟩ := List.mem_map.mp hpart
      exact each i hi t ht
  · rw [List.mem_singleton.mp ht]
    exact last

theorem LiteralSpelled.ne_nil {l : Literal} {tokens : List (List Char)}
    (h : LiteralSpelled l tokens) : ∀ t ∈ tokens, t ≠ [] := by
  induction h with
  | single token =>
    intro t ht
    rw [List.mem_singleton.mp ht]
    exact token.ne_nil
  | multiple first second others _ ih =>
    exact List.forall_mem_cons.mpr ⟨List.cons_ne_nil _ _,
      forall_bracketed ih (List.cons_ne_nil _ _) (List.cons_ne_nil _ _)⟩

theorem TreeSpelled.ne_nil {tree : Tree} {tokens : List (List Char)} (h : TreeSpelled tree tokens) :
    ∀ t ∈ tokens, t ≠ [] := by
  induction h with
  | literal h => exact h.ne_nil
  | call arguments hw _ ih =>
    obtain ⟨c, tail, rfl, -⟩ := hw.start
    exact List.forall_mem_cons.mpr ⟨List.cons_ne_nil c tail,
      List.forall_mem_cons.mpr ⟨List.cons_ne_nil _ _,
        forall_bracketed ih (List.cons_ne_nil _ _) (List.cons_ne_nil _ _)⟩⟩

/-- **Every spelling of a tree is read as that tree.** -/
theorem readRoot_of_spells {tree : Tree} {text : List Char} (h : Spells tree text) :
    ∃ raw, readRoot text = .ok raw ∧ raw.tree = tree := by
  obtain ⟨tokens, spelled, laidOut⟩ := h
  have fits : tokens.length ≤ text.length + 1 := by
    have := laidOut.length_le spelled.ne_nil
    omega
  obtain ⟨raw, after, read, same, blank⟩ :=
    (readNode_spelled spelled fits).taken laidOut stops_nil
  rw [List.append_nil] at read
  refine ⟨raw, Outcome.bind_of_ok read ?_, Option.some.inj same⟩
  dsimp only
  rw [blank]
  rfl

end CatalogQuery.Grammar
