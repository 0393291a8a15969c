import CatalogQuery.Proofs.Grammar.Tokens

namespace CatalogQuery

open Grammar

/-- The text of a literal, which says its normal form if its years can be read. -/
def Literal.spelling (l : Literal) : Spelling Literal :=
  ⟨l.text, if l.readable then some l.normal else none⟩

namespace Grammar

open Text (isBlank skipBlanks)

theorem isBlank_of_isWordStart {c : Char} (h : isWordStart c = true) : isBlank c = false := by
  obtain ⟨lower, upper⟩ := bounds_of_isWordStart h
  exact Text.isBlank_eq_false (by omega) (by omega)

theorem isBlank_of_isScalarStart {c : Char} (h : isScalarStart c = true) : isBlank c = false :=
  isBlank_of_isScalarChar (by simp [isScalarChar, h])

/-- Where a single literal starts there is no blank and no bracket of a list. -/
theorem single_opens {l : Literal} (h : l.kind ≠ .multiple) :
    ∃ c rest, l.text = c :: rest ∧ isBlank c = false ∧ c ≠ ')' ∧ c ≠ '\x7b' := by
  rcases text_starts h with ⟨word, -⟩ | ⟨c, rest, text, start⟩
  · obtain ⟨c, rest, text, start⟩ := word.start
    exact ⟨c, rest, text, isBlank_of_isWordStart start, Text.ne_of_class start (by decide),
      Text.ne_of_class start (by decide)⟩
  · refine ⟨c, rest, text, ?_⟩
    rcases start with rfl | rfl | rfl | scalar
    · decide
    · decide
    · decide
    · exact ⟨isBlank_of_isScalarStart scalar, Text.ne_of_class scalar (by decide),
        Text.ne_of_class scalar (by decide)⟩

theorem opens_text (l : Literal) : Opens l.text := by
  by_cases h : l.kind = .multiple
  · cases l with
    | multiple first second rest => exact ⟨_, _, rfl, by decide, by decide⟩
    | _ => cases h
  · obtain ⟨c, rest, text, blank, round, -⟩ := single_opens h
    exact ⟨c, rest, text, blank, round⟩

theorem restText_eq_spelled (ls : List Literal) :
    Literal.restText ls = spelled [] (ls.map Literal.spelling) := by
  rw [Literal.restText_eq, spelled, List.flatMap_map]
  rfl

theorem valuesOf_spelling (ls : List Literal) :
    valuesOf (ls.map Literal.spelling) =
      if Literal.readableAll ls then some (Literal.normalAll ls) else none := by
  rw [Literal.readableAll_eq, Literal.normalAll_eq]
  exact valuesOf_map fun _ _ => rfl

theorem readComma_of {text rest : List Char} (h : skipBlanks text = ',' :: rest) :
    readComma text = .ok (skipBlanks rest) := by
  simp only [readComma, h]

theorem bounds_restText (ls : List Literal) :
    ls.length ≤ (Literal.restText ls).length ∧
      ∀ l ∈ ls, l.text.length ≤ (Literal.restText ls).length := by
  induction ls with
  | nil => simp
  | cons l ls ih =>
    simp only [Literal.restText, List.length_cons, List.length_append]
    refine ⟨by omega, ?_⟩
    intro l' hl'
    rcases List.mem_cons.mp hl' with rfl | hl'
    · omega
    · have := ih.2 l' hl'
      omega

theorem mapM_some {α : Type} (as : List α) : as.mapM some = some as :=
  (mapM_some_map id as).trans (congrArg some (List.map_id as))

theorem readLiteral_single {l : Literal} (h : l.kind ≠ .multiple) {depth : Nat} (hd : 0 < depth)
    (hidden : Bool) : l.spelling.ReadBy (readLiteral depth hidden) some := by
  intro rest stops
  have token := readToken_text h stops hidden
  obtain ⟨c, tail, text, -, -, curly⟩ := single_opens h
  cases depth with
  | zero => cases hd
  | succ depth =>
    have read : readLiteral (depth + 1) hidden (l.text ++ rest) =
        readToken hidden (l.text ++ rest) := by
      rw [text, List.cons_append, readLiteral]
      rintro _ ⟨⟩
      exact absurd rfl curly
    rw [Literal.spelling, read, means, token]
    cases l.readable <;> rfl

/-- **Literals of any depth read back as far as their years go.** -/
theorem readLiteral_spelling (l : Literal) {depth : Nat} (hd : l.text.length ≤ depth)
    (hidden : Bool) : l.spelling.ReadBy (readLiteral depth hidden) some := by
  induction l using Literal.induct generalizing depth hidden with
  | single l h =>
    obtain ⟨c, tail, text, -⟩ := single_opens h
    refine readLiteral_single h (Nat.lt_of_lt_of_le ?_ hd) hidden
    rw [text]
    exact Nat.succ_pos _
  | multiple first second others hfirst hsecond hothers =>
    intro rest stops
    simp only [Literal.text, List.length_cons, List.length_append, List.length_nil] at hd
    -- The braces take one of the budget, and each item is shorter than the text in them.
    obtain ⟨depth, rfl⟩ : ∃ n, depth = n + 1 := ⟨depth - 1, by omega⟩
    obtain ⟨count, short⟩ := bounds_restText others
    have comma (rest : List Char) : Stops (',' :: rest) :=
      stops_append blank_nil (by decide) (.inl rfl) _
    have text : (Literal.spelling (.multiple first second others)).text ++ rest =
        '\x7b' :: (first.text ++ ',' :: (second.text ++ (spelled [] (others.map Literal.spelling) ++
          '\x7d' :: rest))) := by
      simp [Literal.spelling, Literal.text, restText_eq_spelled]
    have value : (Literal.spelling (.multiple first second others)).value =
        first.spelling.value.bind fun a => second.spelling.value.bind fun b =>
          (valuesOf (others.map Literal.spelling)).bind fun ls => some (.multiple a b ls) := by
      rw [valuesOf_spelling]
      by_cases h₁ : first.readable = true <;> by_cases h₂ : second.readable = true <;>
        by_cases h₃ : Literal.readableAll others = true <;>
        simp [Literal.spelling, Literal.readable, Literal.normal, h₁, h₂, h₃]
    rw [text, value, readLiteral, skipBlanks_of_opens (opens_text first)]
    refine means_bind (hfirst (by omega) true _ (comma _)) (fun a r v ha hr => ?_) (by simp)
    cases ha
    rw [Text.skipBlanks_cons (by decide)] at hr
    apply (congrArg _ (Outcome.bind_of_ok (readComma_of hr) rfl)).trans
    rw [skipBlanks_of_opens (opens_text second)]
    refine means_bind (hsecond (by omega) true _ (stops_spelled [] blank_nil (.inr rfl) _ rest))
      (fun b r w hb hr => ?_) (by simp)
    cases hb
    have opens : ∀ s ∈ others.map Literal.spelling, Opens s.text := by
      intro s hs
      obtain ⟨l, -, rfl⟩ := List.mem_map.mp hs
      exact opens_text l
    have read : ∀ s ∈ others.map Literal.spelling, s.ReadBy (readLiteral depth true) some := by
      intro s hs
      obtain ⟨l, hl, rfl⟩ := List.mem_map.mp hs
      exact hothers l hl (Nat.le_trans (short l hl) (by omega)) true
    have fits : (others.map Literal.spelling).length < depth + 1 := by
      rw [List.length_map]
      omega
    apply means_bind (readItems_spelled blank_nil blank_nil (.inr rfl) opens read rest fits hr)
    · intro ls r vs hls hr
      rw [mapM_some] at hls
      cases hls
      simp [means, hr, pure, Except.pure]
    · intro ls r hls
      rw [mapM_some] at hls
      cases hls

end Grammar
end CatalogQuery
