import CatalogQuery.Text.Quoted

namespace CatalogQuery.Text

theorem needsEscape_eq_false {c : Char} (h : needsEscape c = false) : c ≠ '\'' ∧ c ≠ '\\' := by
  simpa [needsEscape] using h

theorem splitQuoted?_plain {mark c : Char} (slash : c ≠ '\\') (other : c ≠ mark)
    (rest : List Char) :
    splitQuoted? mark (c :: rest) =
      (splitQuoted? mark rest).map fun (inside, after) => (c :: inside, after) := by
  rw [splitQuoted?, if_neg other]
  · exact fun h => absurd h slash
  · exact fun _ _ h => absurd h slash

theorem unescape?_plain {mark c : Char} (slash : c ≠ '\\') (other : c ≠ mark)
    (rest : List Char) : unescape? mark (c :: rest) = (unescape? mark rest).map (c :: ·) := by
  rw [unescape?, if_neg other]
  · exact fun h => absurd h slash
  · exact fun _ _ h => absurd h slash

/-- The rest of a string after its opening quote: characters that are neither the quote
nor a backslash, and characters after a backslash, up to the first quote. -/
inductive Quoted (mark : Char) : List Char → Prop
  | close : Quoted mark [mark]
  | plain {c : Char} {rest : List Char} :
    c ≠ mark → c ≠ '\\' → Quoted mark rest → Quoted mark (c :: rest)
  | escaped {c : Char} {rest : List Char} : Quoted mark rest → Quoted mark ('\\' :: c :: rest)

theorem splitQuoted?_of_quoted {mark : Char} (slash : mark ≠ '\\') {inside : List Char}
    (h : Quoted mark inside) (rest : List Char) :
    splitQuoted? mark (inside ++ rest) = some (inside, rest) := by
  induction h with
  | close =>
    rw [List.singleton_append, splitQuoted?, if_pos rfl]
    · exact fun h => absurd h slash
    · exact fun _ _ h => absurd h slash
  | plain other slash _ ih =>
    rw [List.cons_append, splitQuoted?_plain slash other, ih]
    rfl
  | escaped _ ih => simp only [List.cons_append, splitQuoted?, ih, Option.map_some]

theorem quoted_of_splitQuoted? {mark : Char} {text inside rest : List Char}
    (h : splitQuoted? mark text = some (inside, rest)) :
    Quoted mark inside ∧ text = inside ++ rest := by
  induction text using splitQuoted?.induct mark generalizing inside rest with
  | case1 => cases h
  | case2 => cases h
  | case3 c tail ih =>
    rw [splitQuoted?, Option.map_eq_some_iff] at h
    obtain ⟨⟨inside, rest⟩, split, same⟩ := h
    cases same
    obtain ⟨quoted, rfl⟩ := ih split
    exact ⟨.escaped quoted, rfl⟩
  | case4 tail last escape =>
    rw [splitQuoted?, if_pos rfl] at h
    · cases h
      exact ⟨.close, rfl⟩
    · exact last
    · exact escape
  | case5 c tail last escape other ih =>
    have slash : c ≠ '\\' := by
      rintro rfl
      cases tail with
      | nil => exact last rfl rfl
      | cons d tail => exact escape d tail rfl rfl
    rw [splitQuoted?_plain slash other, Option.map_eq_some_iff] at h
    obtain ⟨⟨inside, rest⟩, split, same⟩ := h
    cases same
    obtain ⟨quoted, rfl⟩ := ih split
    exact ⟨.plain other slash quoted, rfl⟩

/-- **The scanner takes exactly the quoted strings.** -/
theorem scanQuoted?_iff {text token rest : List Char} :
    scanQuoted? text = some (token, rest) ↔
      ∃ mark inside, (mark = '\'' ∨ mark = '"') ∧ Quoted mark inside ∧ token = mark :: inside ∧
        text = token ++ rest := by
  constructor
  · intro h
    cases text with
    | nil => cases h
    | cons mark tail =>
      rw [scanQuoted?] at h
      split at h
      · rename_i quote
        obtain ⟨⟨inside, rest⟩, split, same⟩ := Option.map_eq_some_iff.mp h
        cases same
        obtain ⟨quoted, rfl⟩ := quoted_of_splitQuoted? split
        exact ⟨mark, inside, quote, quoted, rfl, rfl⟩
      · cases h
  · rintro ⟨mark, inside, quote, quoted, rfl, rfl⟩
    have slash : mark ≠ '\\' := by
      rcases quote with rfl | rfl
      · decide
      · decide
    rw [List.cons_append, scanQuoted?, if_pos quote, splitQuoted?_of_quoted slash quoted]
    rfl

/-- What the rest of a string after its opening quote stands for: each character for itself,
and a backslash for nothing but the character after it. -/
inductive Spells (mark : Char) : List Char → List Char → Prop
  | close : Spells mark [mark] []
  | plain {c : Char} {rest value : List Char} :
    c ≠ mark → c ≠ '\\' → Spells mark rest value → Spells mark (c :: rest) (c :: value)
  | escaped {c : Char} {rest value : List Char} :
    Spells mark rest value → Spells mark ('\\' :: c :: rest) (c :: value)

/-- The quoted strings are those that stand for something. -/
theorem quoted_iff_spells {mark : Char} {inside : List Char} :
    Quoted mark inside ↔ ∃ value, Spells mark inside value := by
  constructor
  · intro h
    induction h with
    | close => exact ⟨[], .close⟩
    | plain other slash _ ih =>
      obtain ⟨value, spelled⟩ := ih
      exact ⟨_, .plain other slash spelled⟩
    | escaped _ ih =>
      obtain ⟨value, spelled⟩ := ih
      exact ⟨_, .escaped spelled⟩
  · rintro ⟨value, h⟩
    induction h with
    | close => exact .close
    | plain other slash _ ih => exact .plain other slash ih
    | escaped _ ih => exact .escaped ih

theorem dropClosing?_append (mark : Char) (text : List Char) :
    dropClosing? mark (text ++ [mark]) = some text := by
  simp [dropClosing?]

theorem dropClosing?_eq_some {mark : Char} {text content : List Char} :
    dropClosing? mark text = some content ↔ text = content ++ [mark] := by
  constructor
  · intro h
    rw [dropClosing?] at h
    split at h
    · rename_i last
      obtain ⟨before, rfl⟩ := List.getLast?_eq_some_iff.mp last
      simpa using h
    · cases h
  · rintro rfl
    exact dropClosing?_append mark content

/-- What stands between the quotes is resolved to what it stands for. -/
theorem unescape?_of_spells {mark : Char} {inside value : List Char}
    (h : Spells mark inside value) :
    ∃ content, inside = content ++ [mark] ∧ unescape? mark content = some value := by
  induction h with
  | close => exact ⟨[], rfl, rfl⟩
  | @plain c _ _ other slash _ ih =>
    obtain ⟨content, rfl, resolved⟩ := ih
    exact ⟨c :: content, rfl, by simp [unescape?_plain slash other, resolved]⟩
  | @escaped c _ _ _ ih =>
    obtain ⟨content, rfl, resolved⟩ := ih
    exact ⟨'\\' :: c :: content, rfl, by simp [unescape?, resolved]⟩

/-- Nothing is resolved that a quote does not close: no bare quote stands within it, and no
backslash takes the closing one along. -/
theorem spells_of_unescape? {mark : Char} {content value : List Char}
    (h : unescape? mark content = some value) : Spells mark (content ++ [mark]) value := by
  -- Along the cases of the reader; a backslash at the end and a bare quote are refused.
  induction content using unescape?.induct mark generalizing value with
  | case1 =>
    cases h
    exact .close
  | case2 => cases h
  | case3 c rest ih =>
    rw [unescape?, Option.map_eq_some_iff] at h
    obtain ⟨value, resolved, rfl⟩ := h
    exact .escaped (ih resolved)
  | case4 rest last escape =>
    rw [unescape?, if_pos rfl] at h
    · cases h
    · exact last
    · exact escape
  | case5 c rest last escape other ih =>
    have slash : c ≠ '\\' := by
      rintro rfl
      cases rest with
      | nil => exact last rfl rfl
      | cons d rest => exact escape d rest rfl rfl
    rw [unescape?_plain slash other, Option.map_eq_some_iff] at h
    obtain ⟨value, resolved, rfl⟩ := h
    exact .plain other slash (ih resolved)

/-- **The reader takes exactly the quoted strings**, and each for what it stands for. -/
theorem unquote?_iff {text value : List Char} :
    unquote? text = some value ↔
      ∃ mark inside, (mark = '\'' ∨ mark = '"') ∧ Spells mark inside value ∧
        text = mark :: inside := by
  constructor
  · intro h
    cases text with
    | nil => cases h
    | cons mark inside =>
      rw [unquote?] at h
      split at h
      · rename_i quote
        obtain ⟨content, dropped, resolved⟩ := Option.bind_eq_some_iff.mp h
        obtain rfl := dropClosing?_eq_some.mp dropped
        exact ⟨mark, _, quote, spells_of_unescape? resolved, rfl⟩
      · cases h
  · rintro ⟨mark, inside, quote, spelled, rfl⟩
    obtain ⟨content, rfl, resolved⟩ := unescape?_of_spells spelled
    simp [unquote?, quote, dropClosing?_append, resolved]

/-- Every quoted string stands for a string. -/
theorem unquote?_of_quoted {mark : Char} {inside : List Char} (quote : mark = '\'' ∨ mark = '"')
    (h : Quoted mark inside) : ∃ value, unquote? (mark :: inside) = some value := by
  obtain ⟨value, spelled⟩ := quoted_iff_spells.mp h
  exact ⟨value, unquote?_iff.mpr ⟨mark, inside, quote, spelled, rfl⟩⟩

/-- An escaped string stands for itself. -/
theorem spells_escape (value : List Char) : Spells '\'' (escape value ++ ['\'']) value := by
  induction value with
  | nil => exact .close
  | cons c value ih =>
    rw [escape]
    by_cases h : needsEscape c = true
    · rw [if_pos h]
      exact .escaped ih
    · obtain ⟨quote, slash⟩ := needsEscape_eq_false (Bool.eq_false_iff.mpr h)
      rw [if_neg h]
      exact .plain quote slash ih

/-- No quote within an escaped string closes it. -/
theorem quoted_escape (value : List Char) : Quoted '\'' (escape value ++ ['\'']) :=
  quoted_iff_spells.mpr ⟨value, spells_escape value⟩

theorem unquote?_quote (value : List Char) : unquote? (quote value) = some value :=
  unquote?_iff.mpr ⟨'\'', _, .inl rfl, spells_escape value, rfl⟩

end CatalogQuery.Text
