import CatalogQuery.Proofs.Grammar.Tokens

namespace CatalogQuery

theorem Literal.parse_string_iff {text : List Char} {value : Literal} :
    Literal.parse .string text = .ok value ↔
      ∃ mark inside content, (mark = '\'' ∨ mark = '"') ∧ Text.Spells mark inside content ∧
        text = mark :: inside ∧ value = .string (String.ofList content) := by
  constructor
  · intro h
    cases read : Text.unquote? text with
    | none => simp [parse, read, parse.fail] at h
    | some content =>
      obtain ⟨mark, inside, quote, spelled, same⟩ := Text.unquote?_iff.mp read
      simp only [parse, read, Except.ok.injEq] at h
      exact ⟨mark, inside, content, quote, spelled, same, h.symm⟩
  · rintro ⟨mark, inside, content, quote, spelled, rfl, rfl⟩
    simp only [parse, Text.unquote?_iff.mpr ⟨mark, inside, quote, spelled, rfl⟩]

/-- The scanner takes a whole text exactly when the reader reads it. -/
theorem Text.scanQuoted?_whole_iff {text : List Char} :
    Text.scanQuoted? text = some (text, []) ↔ ∃ value, Literal.parse .string text = .ok value := by
  simp only [Text.scanQuoted?_iff, Literal.parse_string_iff, Text.quoted_iff_spells]
  constructor
  · rintro ⟨mark, inside, quote, ⟨content, spelled⟩, same, -⟩
    exact ⟨_, mark, inside, content, quote, spelled, same, rfl⟩
  · rintro ⟨-, mark, inside, content, quote, spelled, same, -⟩
    exact ⟨mark, inside, quote, ⟨content, spelled⟩, same, by simp⟩

/-- A scanned string is a token by itself, and is taken whole before any other text. -/
theorem Text.scanQuoted?_append {text token rest : List Char}
    (h : Text.scanQuoted? text = some (token, rest)) (after : List Char) :
    Text.scanQuoted? (token ++ after) = some (token, after) := by
  obtain ⟨mark, inside, quote, quoted, same, -⟩ := Text.scanQuoted?_iff.mp h
  exact Text.scanQuoted?_iff.mpr ⟨mark, inside, quote, quoted, same, rfl⟩

theorem Text.scanQuoted?_quote (value after : List Char) :
    Text.scanQuoted? (Text.quote value ++ after) = some (Text.quote value, after) :=
  Text.scanQuoted?_iff.mpr ⟨'\'', _, .inl rfl, Text.quoted_escape value, rfl, rfl⟩

namespace Grammar

/-- No string that was scanned is refused afterwards. -/
theorem readToken_of_scanQuoted? {text token rest : List Char}
    (h : Text.scanQuoted? text = some (token, rest)) (hidden : Bool) :
    ∃ value, Literal.parse .string token = .ok value ∧
      readToken hidden text = .ok (value, rest) := by
  have alone := Text.scanQuoted?_append h []
  rw [List.append_nil] at alone
  obtain ⟨value, read⟩ := Text.scanQuoted?_whole_iff.mp alone
  obtain ⟨mark, inside, quote, quoted, rfl, rfl⟩ := Text.scanQuoted?_iff.mp h
  refine ⟨value, read, ?_⟩
  rw [readToken_quoted quote quoted, literalOf, read]
  rfl

/-- **String tokens and their reading agree.** The scanner takes a whole text exactly when the
text is read as a string, and both do so exactly for a quote, a rest that spells a string, and
nothing more; what was scanned from the start of a text is read, and is scanned again before
any other text; a written string is read back as it was, and is scanned up to its closing
quote whatever follows it. -/
theorem string_tokens_readable :
    (∀ text : List Char,
      (Text.scanQuoted? text = some (text, []) ↔
        ∃ value, Literal.parse .string text = .ok value) ∧
      ∀ value : String, Literal.parse .string text = .ok (.string value) ↔
        ∃ mark inside, (mark = '\'' ∨ mark = '"') ∧ Text.Spells mark inside value.toList ∧
          text = mark :: inside) ∧
    (∀ (text token rest : List Char), Text.scanQuoted? text = some (token, rest) →
      (∀ hidden, ∃ value, Literal.parse .string token = .ok (.string value) ∧
        readToken hidden text = .ok (.string value, rest)) ∧
      ∀ after, Text.scanQuoted? (token ++ after) = some (token, after)) ∧
    ∀ value : String,
      Text.unquote? (Text.quote value.toList) = some value.toList ∧
      Literal.parse .string (Literal.string value).text = .ok (.string value) ∧
      ∀ after, Text.scanQuoted? ((Literal.string value).text ++ after) =
          some ((Literal.string value).text, after) ∧
        ∀ hidden, readToken hidden ((Literal.string value).text ++ after) =
          .ok (.string value, after) := by
  have written (value : String) :
      Literal.parse .string (Text.quote value.toList) = .ok (.string value) := by
    simp only [Literal.parse, Text.unquote?_quote, String.ofList_toList]
  refine ⟨fun text => ⟨Text.scanQuoted?_whole_iff, fun value => ?_⟩,
    fun text token rest h => ⟨fun hidden => ?_, Text.scanQuoted?_append h⟩,
    fun value => ⟨Text.unquote?_quote _, written value,
      fun after => ⟨Text.scanQuoted?_quote _ after, fun hidden => ?_⟩⟩⟩
  · rw [Literal.parse_string_iff]
    constructor
    · rintro ⟨mark, inside, content, quote, spelled, same, value⟩
      cases value
      exact ⟨mark, inside, quote, by rwa [String.toList_ofList], same⟩
    · rintro ⟨mark, inside, quote, spelled, same⟩
      exact ⟨mark, inside, _, quote, spelled, same, by rw [String.ofList_toList]⟩
  · obtain ⟨value, read, taken⟩ := readToken_of_scanQuoted? h hidden
    obtain ⟨-, -, content, -, -, -, rfl⟩ := Literal.parse_string_iff.mp read
    exact ⟨_, read, taken⟩
  · rw [Literal.text, readToken_string, literalOf, written]
    rfl

/-- The string `it's "\` between double quotes, with a line break after the token. -/
theorem awkward_string_readable :
    Text.scanQuoted? "\"it's \\\"\\\\\"\n'\"".toList =
      some ("\"it's \\\"\\\\\"".toList, "\n'\"".toList) ∧
    (∃ value, Literal.parse .string "\"it's \\\"\\\\\"".toList = .ok (.string value) ∧
      readToken false "\"it's \\\"\\\\\"\n'\"".toList = .ok (.string value, "\n'\"".toList)) ∧
    Text.unquote? (Text.quote "it's \"\\\n".toList) = some "it's \"\\\n".toList :=
  have scanned : Text.scanQuoted? "\"it's \\\"\\\\\"\n'\"".toList =
      some ("\"it's \\\"\\\\\"".toList, "\n'\"".toList) := by decide
  ⟨scanned, (string_tokens_readable.2.1 _ _ _ scanned).1 false,
    (string_tokens_readable.2.2 _).1⟩

end Grammar
end CatalogQuery
