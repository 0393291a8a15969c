import CatalogQuery.Proofs.Grammar.Lists
import CatalogQuery.Proofs.Literal.RoundTrip

namespace CatalogQuery.Grammar

open Text (Leaves skipBlanks)

/-- A text that the scanner of words takes whole. -/
structure Word (text : List Char) : Prop where
  start : ∃ c rest, text = c :: rest ∧ isWordStart c = true
  chars : ∀ c ∈ text, isWordChar c = true

theorem word_of {text : List Char} (start : (text.head?.map isWordStart).getD false = true)
    (chars : text.all isWordChar = true) : Word text := by
  cases text with
  | nil => cases start
  | cons c rest => exact ⟨⟨c, rest, rfl, start⟩, List.all_eq_true.mp chars⟩

theorem scanWord_append {word rest : List Char} (h : Word word) (leaves : Leaves isWordChar rest) :
    scanWord (word ++ rest) = (word, rest) := by
  rw [scanWord, Text.takeWhile_append h.chars leaves, Text.dropWhile_append h.chars leaves]

theorem bounds_of_isWordStart {c : Char} (h : isWordStart c = true) :
    0x40 < c.toNat ∧ c.toNat < 0x7B := by
  simp only [isWordStart, Bool.or_eq_true, beq_iff_eq] at h
  rcases h with letter | rfl
  · exact bounds_of_isAlpha letter
  · decide

theorem isWordStart_of_isScalarStart {c : Char} (h : isScalarStart c = true) :
    isWordStart c = false := by
  apply Bool.eq_false_iff.mpr
  intro word
  have lower := (bounds_of_isWordStart word).1
  simp only [isScalarStart, Bool.or_eq_true, beq_iff_eq] at h
  rcases h with (digit | rfl) | rfl
  · have upper := (Char.isDigit_iff_toNat.mp digit).2
    simp only [Char.reduceToNat] at upper
    omega
  · exact absurd lower (by decide)
  · exact absurd lower (by decide)

theorem isScalarStart_of_isWordStart {c : Char} (h : isWordStart c = true) :
    isScalarStart c = false := by
  apply Bool.eq_false_iff.mpr
  intro scalar
  rw [isWordStart_of_isScalarStart scalar] at h
  cases h

theorem toOption_orInvalid {α : Type} (start : List Char) (hidden : Bool) (rest : List Char)
    (value : Option α) : (orInvalid start hidden rest value).toOption = value.map (·, rest) := by
  cases value <;> rfl

/-! ### Sorts of tokens -/

theorem scanScalar_append {token rest : List Char} (h : Scalar token)
    (leaves : Leaves isScalarChar rest) : scanScalar (token ++ rest) = (token, rest) := by
  rw [scanScalar, Text.takeWhile_append h.chars leaves, Text.dropWhile_append h.chars leaves]

theorem scanBetween_append (opening closing : Char) {p : Char → Bool} {inside : List Char}
    (h : ∀ c ∈ inside, p c = true) (close : p closing = false) (rest : List Char) :
    scanBetween opening closing p (inside ++ closing :: rest) =
      .ok (opening :: inside ++ [closing], rest) := by
  have leaves : Leaves p (closing :: rest) := Text.leaves_cons.mpr close
  simp only [scanBetween, Text.takeWhile_append h leaves, Text.dropWhile_append h leaves, if_true]

theorem scanRange_append {content : List Char} (h : ∀ c ∈ content, c ≠ '[' ∧ c ≠ ']')
    (rest : List Char) :
    scanBetween '[' ']' (fun c => c != '[' && c != ']') (content ++ ']' :: rest) =
      .ok ('[' :: content ++ [']'], rest) := by
  apply scanBetween_append '[' ']' _ (by decide) rest
  intro c hc
  simpa using h c hc

theorem scanLocale_append {tag : List Char} (h : '\x60' ∉ tag) (rest : List Char) :
    scanBetween '\x60' '\x60' (· != '\x60') (tag ++ '\x60' :: rest) =
      .ok ('\x60' :: tag ++ ['\x60'], rest) := by
  apply scanBetween_append '\x60' '\x60' _ (by decide) rest
  intro c hc
  exact bne_iff_ne.mpr fun same => h (same ▸ hc)

/-- A character of a class without the marks that open a token is none of them. -/
theorem not_opening {p : Char → Bool} {c : Char} (h : p c = true) (single : p '\'' = false)
    (double : p '"' = false) (tick : p '\x60' = false) (bracket : p '[' = false) :
    ¬(c = '\'' ∨ c = '"') ∧ c ≠ '\x60' ∧ c ≠ '[' :=
  ⟨not_or.mpr ⟨Text.ne_of_class h single, Text.ne_of_class h double⟩, Text.ne_of_class h tick,
    Text.ne_of_class h bracket⟩

theorem not_opening_of_scalar {c : Char} (h : isScalarStart c = true) :
    ¬(c = '\'' ∨ c = '"') ∧ c ≠ '\x60' ∧ c ≠ '[' :=
  not_opening h (by decide) (by decide) (by decide) (by decide)

theorem not_opening_of_word {c : Char} (h : isWordStart c = true) :
    ¬(c = '\'' ∨ c = '"') ∧ c ≠ '\x60' ∧ c ≠ '[' :=
  not_opening h (by decide) (by decide) (by decide) (by decide)

theorem readToken_scalar {token rest : List Char} (h : Scalar token)
    (leaves : Leaves isScalarChar rest) (hidden : Bool) :
    readToken hidden (token ++ rest) =
      literalOf (scalarKind token) (token ++ rest) hidden token rest := by
  have scanned := scanScalar_append h leaves
  obtain ⟨c, tail, rfl, start⟩ := h.start
  obtain ⟨quote, tick, bracket⟩ := not_opening_of_scalar start
  rw [List.cons_append] at scanned ⊢
  simp only [readToken, if_neg quote, if_neg tick, if_neg bracket, start, if_true, scanned]

theorem readToken_range {content : List Char} (h : ∀ c ∈ content, c ≠ '[' ∧ c ≠ ']')
    (rest : List Char) (hidden : Bool) :
    readToken hidden ('[' :: content ++ [']'] ++ rest) =
      literalOf (rangeKind ('[' :: content ++ [']'])) ('[' :: content ++ [']'] ++ rest) hidden
        ('[' :: content ++ [']']) rest := by
  have scanned := scanRange_append h rest
  simp only [List.cons_append, List.append_assoc, List.nil_append] at scanned ⊢
  rw [readToken, if_neg (by decide), if_neg (by decide), if_pos rfl]
  exact Outcome.bind_of_ok scanned rfl

theorem readToken_locale {tag : List Char} (h : '\x60' ∉ tag) (rest : List Char) (hidden : Bool) :
    readToken hidden ('\x60' :: tag ++ ['\x60'] ++ rest) =
      literalOf .locale ('\x60' :: tag ++ ['\x60'] ++ rest) hidden ('\x60' :: tag ++ ['\x60'])
        rest := by
  have scanned := scanLocale_append h rest
  simp only [List.cons_append, List.append_assoc, List.nil_append] at scanned ⊢
  rw [readToken, if_neg (by decide), if_pos rfl]
  exact Outcome.bind_of_ok scanned rfl

theorem readToken_quoted {mark : Char} {inside : List Char} (hm : mark = '\'' ∨ mark = '"')
    (h : Text.Quoted mark inside) (rest : List Char) (hidden : Bool) :
    readToken hidden (mark :: inside ++ rest) =
      literalOf .string (mark :: inside ++ rest) hidden (mark :: inside) rest := by
  have scanned := Text.scanQuoted?_iff.mpr
    ⟨mark, inside, hm, h, rfl, (rfl : mark :: inside ++ rest = _)⟩
  rw [List.cons_append] at scanned ⊢
  rw [readToken, if_pos hm, scanned]

theorem readToken_string (value rest : List Char) (hidden : Bool) :
    readToken hidden (Text.quote value ++ rest) =
      literalOf .string (Text.quote value ++ rest) hidden (Text.quote value) rest :=
  readToken_quoted (.inl rfl) (Text.quoted_escape value) rest hidden

theorem readToken_word {word rest : List Char} (h : Word word) (leaves : Leaves isWordChar rest)
    (hidden : Bool) :
    readToken hidden (word ++ rest) =
      orInvalid (word ++ rest) hidden rest (wordLiteral? word) := by
  have scanned := scanWord_append h leaves
  obtain ⟨c, tail, rfl, start⟩ := h.start
  obtain ⟨quote, tick, bracket⟩ := not_opening_of_word start
  have scalar := isScalarStart_of_isWordStart start
  rw [List.cons_append] at scanned ⊢
  simp only [readToken, if_neg quote, if_neg tick, if_neg bracket, scalar, start, if_true,
    Bool.false_eq_true, if_false,
    scanned]

/-! ### Ranges -/

section
variable {α : Type} [LE α] {write : α → List Char} {r : Range α}

theorem mem_rangeText {c : Char} (h : c ∈ r.text write) (comma : c ≠ ',') (left : c ≠ '[')
    (right : c ≠ ']') : ∃ a ∈ r.bounds, c ∈ write a := by
  have bound (b : Option α) (hc : c ∈ b.elim [] write) : ∃ a ∈ b.toList, c ∈ write a := by
    cases b with
    | none => simp at hc
    | some a => exact ⟨a, List.mem_cons_self, hc⟩
  simp only [Range.text, List.mem_cons, List.mem_append, List.not_mem_nil, or_false, left, right,
    comma, false_or, List.cons_append] at h
  rcases h with h | h
  · obtain ⟨a, ha, hc⟩ := bound _ h
    exact ⟨a, List.mem_append_left _ ha, hc⟩
  · obtain ⟨a, ha, hc⟩ := bound _ h
    exact ⟨a, List.mem_append_right _ ha, hc⟩

theorem bounds_ne_nil (r : Range α) : ∃ a, a ∈ r.bounds := by
  obtain ⟨lower, upper, bounded, -⟩ := r
  cases lower with
  | some l => exact ⟨l, List.mem_cons_self⟩
  | none =>
    cases upper with
    | some u => exact ⟨u, List.mem_cons_self⟩
    | none => cases bounded

theorem mem_rangeText_of_bound {a : α} (ha : a ∈ r.bounds) {c : Char} (hc : c ∈ write a) :
    c ∈ r.text write := by
  simp only [Range.text, List.mem_cons, List.mem_append]
  rcases List.mem_append.mp ha with ha | ha
  · rw [Option.mem_toList] at ha
    simp only [Option.mem_def.mp ha, Option.elim_some]
    grind
  · rw [Option.mem_toList] at ha
    simp only [Option.mem_def.mp ha, Option.elim_some]
    grind

theorem readToken_rangeText (scalar : ∀ a ∈ r.bounds, Scalar (write a)) (rest : List Char)
    (hidden : Bool) :
    readToken hidden (r.text write ++ rest) =
      literalOf (rangeKind (r.text write)) (r.text write ++ rest) hidden (r.text write) rest := by
  have bound (b : Option α) (hb : ∀ a ∈ b.toList, Scalar (write a)) :
      ∀ c ∈ b.elim [] write, c ≠ '[' ∧ c ≠ ']' := by
    cases b with
    | none => simp
    | some a =>
      intro c hc
      have char := (hb a List.mem_cons_self).chars c hc
      exact ⟨Text.ne_of_class char (by decide), Text.ne_of_class char (by decide)⟩
  have lower := bound r.lower fun a ha => scalar a (List.mem_append_left _ ha)
  have upper := bound r.upper fun a ha => scalar a (List.mem_append_right _ ha)
  have inside : ∀ c ∈ r.lower.elim [] write ++ ',' :: r.upper.elim [] write,
      c ≠ '[' ∧ c ≠ ']' := by
    intro c hc
    rcases List.mem_append.mp hc with hc | hc
    · exact lower c hc
    · rcases List.mem_cons.mp hc with rfl | hc
      · decide
      · exact upper c hc
  exact readToken_range inside rest hidden

end

theorem rangeKind_int (r : Range Int64) :
    rangeKind (r.text fun n => Text.integerText n.toInt) = .intRange := by
  have none (c : Char) (digit : c.isDigit = false) (sign : c ∉ ['-']) (comma : c ≠ ',')
      (left : c ≠ '[') (right : c ≠ ']') : c ∉ r.text fun n => Text.integerText n.toInt := by
    intro hc
    obtain ⟨n, -, hn⟩ := mem_rangeText hc comma left right
    exact (Text.madeOf_integerText n.toInt).not_mem digit sign hn
  have mark := none 'T' (by decide) (by decide) (by decide) (by decide) (by decide)
  have point := none '.' (by decide) (by decide) (by decide) (by decide) (by decide)
  simp [rangeKind, mark, point]

theorem rangeKind_decimal (r : Range Decimal) :
    rangeKind (r.text Decimal.queryText) = .decimalRange := by
  have mark : 'T' ∉ r.text Decimal.queryText := by
    intro hc
    obtain ⟨d, -, hd⟩ := mem_rangeText hc (by decide) (by decide) (by decide)
    exact d.madeOf_queryText.not_mem (by decide) (by decide) hd
  obtain ⟨d, hd⟩ := bounds_ne_nil r
  have point := mem_rangeText_of_bound hd d.point_mem_queryText
  simp [rangeKind, mark, point]

theorem rangeKind_zoned (r : Range ZonedDateTime) :
    rangeKind (r.text ZonedDateTime.queryText) = .dateTimeRange := by
  obtain ⟨z, hz⟩ := bounds_ne_nil r
  have mark : 'T' ∈ r.text ZonedDateTime.queryText :=
    mem_rangeText_of_bound hz (List.mem_append_left _ (mark_mem_text z.shown))
  simp [rangeKind, mark]

/-! ### Words -/

theorem isAlpha_of_isUpper {c : Char} (h : c.isUpper = true) : c.isAlpha = true :=
  Bool.or_eq_true_iff.mpr (.inl h)

theorem isWordChar_of_isEnumChar {c : Char} (h : Text.isEnumChar c = true) :
    isWordChar c = true := by
  simp only [Text.isEnumChar, Bool.or_eq_true] at h
  rcases h with (upper | digit) | line
  · simp [isWordChar, Char.isAlphanum, isAlpha_of_isUpper upper]
  · simp [isWordChar, Char.isAlphanum, digit]
  · simp [isWordChar, line]

theorem word_enum (token : EnumToken) : Word token.word.toList := by
  have wellFormed := token.wellFormed
  unfold Text.isEnumToken at wellFormed
  split at wellFormed
  · cases wellFormed
  · rename_i c rest text
    rw [Bool.and_eq_true] at wellFormed
    obtain ⟨upper, chars⟩ := wellFormed
    have start : isWordStart c = true := by
      simp [isWordStart, isAlpha_of_isUpper upper]
    rw [text]
    refine ⟨⟨c, rest, rfl, start⟩, ?_⟩
    intro d hd
    rcases List.mem_cons.mp hd with rfl | hd
    · exact isWordChar_of_isEnumChar (by simp [Text.isEnumChar, upper])
    · exact isWordChar_of_isEnumChar (List.all_eq_true.mp chars d hd)

theorem word_boolean (value : Bool) : Word (Literal.booleanText value) := by
  cases value <;> exact word_of (by decide) (by decide)

theorem wordLiteral?_boolean (value : Bool) :
    wordLiteral? (Literal.booleanText value) = some (.boolean value) := by
  have read : Literal.parse .boolean (Literal.booleanText value) = .ok (.boolean value) := by
    simp only [Literal.parse, Literal.parse.named, Literal.readBoolean_booleanText]
    rfl
  rw [wordLiteral?, read]

theorem wordLiteral?_enum (token : EnumToken) :
    wordLiteral? token.word.toList = some (.enum token) := by
  -- Truth values are written with small letters, so no token is one.
  have other (value : Bool) : token.word.toList ≠ Literal.booleanText value := by
    intro same
    have wellFormed := token.wellFormed
    rw [same] at wellFormed
    cases value <;> exact absurd wellFormed (by decide)
  have refused : ∃ e, Literal.parse .boolean token.word.toList = .error e := by
    simp only [Literal.parse, Literal.parse.named, Literal.readBoolean, if_neg (other true),
      if_neg (other false)]
    exact ⟨_, rfl⟩
  obtain ⟨e, refused⟩ := refused
  have read : (Literal.parse .enum token.word.toList).toOption = some (.enum token) :=
    Literal.parse_text (l := .enum token) (by simp [Literal.kind])
  rw [wordLiteral?, refused]
  exact read

/-! ### Single literals -/

theorem mem_intercalate {α : Type} {c : α} {separator : List α} {parts : List (List α)}
    (h : c ∈ separator.intercalate parts) : c ∈ separator ∨ ∃ part ∈ parts, c ∈ part := by
  induction parts with
  | nil => cases h
  | cons part parts ih =>
    by_cases last : parts = []
    · rw [last, List.intercalate_singleton] at h
      exact .inr ⟨part, List.mem_cons_self, h⟩
    · rw [List.intercalate_cons_of_ne_nil last, List.mem_append, List.mem_append] at h
      rcases h with (h | h) | h
      · exact .inr ⟨part, List.mem_cons_self, h⟩
      · exact .inl h
      · rcases ih h with h | ⟨part', hpart, hc⟩
        · exact .inl h
        · exact .inr ⟨part', List.mem_cons_of_mem _ hpart, hc⟩

theorem tick_not_mem_tag (tag : Locale) : '\x60' ∉ tag.tag.toList := by
  have wellFormed := tag.wellFormed
  have alnum : ∀ part ∈ tag.tag.toList.splitOn '-', '\x60' ∉ part := by
    intro part hpart hc
    unfold Text.isLanguageTag Text.subtags at wellFormed
    split at wellFormed
    · cases wellFormed
    · rename_i first rest parts
      rw [Bool.and_eq_true] at wellFormed
      rw [parts] at hpart
      rcases List.mem_cons.mp hpart with rfl | hpart
      · have all := wellFormed.1
        simp only [Text.isPrimarySubtag, Bool.and_eq_true] at all
        exact absurd (List.all_eq_true.mp all.2 _ hc) (by decide)
      · have all := List.all_eq_true.mp wellFormed.2 part hpart
        simp only [Text.isSubtag, Bool.and_eq_true] at all
        exact absurd (List.all_eq_true.mp all.2 _ hc) (by decide)
  intro hc
  have joined : ['-'].intercalate (tag.tag.toList.splitOn '-') = tag.tag.toList :=
    List.intercalate_splitOn '-'
  rw [← joined] at hc
  rcases mem_intercalate hc with hc | ⟨part, hpart, hc⟩
  · exact absurd hc (by decide)
  · exact alnum part hpart hc

theorem toOption_literalOf (kind : LiteralKind) (start : List Char) (hidden : Bool)
    (token rest : List Char) : (literalOf kind start hidden token rest).toOption =
      (Literal.parse kind token).toOption.map (·, rest) :=
  toOption_orInvalid _ _ _ _

/-- A single literal is read from its token by the reader of its kind. -/
theorem readToken_text {l : Literal} (h : l.kind ≠ .multiple) {rest : List Char}
    (stops : Stops rest) (hidden : Bool) :
    (readToken hidden (l.text ++ rest)).toOption =
      (if l.readable then some l.normal else none).map (·, rest) := by
  have parse := Literal.parse_text h
  have scalar := stops.leaves_scalar
  have word := stops.leaves_word
  cases l with
  | string value =>
    rw [Literal.text, readToken_string, toOption_literalOf]
    exact congrArg _ parse
  | int value =>
    rw [Literal.text, readToken_scalar (Scalar.integerText _) scalar, scalarKind_integerText,
      toOption_literalOf]
    exact congrArg _ parse
  | decimal value =>
    rw [Literal.text, readToken_scalar (Scalar.queryText_decimal _) scalar, scalarKind_decimal,
      toOption_literalOf]
    exact congrArg _ parse
  | boolean value =>
    rw [Literal.text, readToken_word (word_boolean _) word, wordLiteral?_boolean,
      toOption_orInvalid]
    rfl
  | date value =>
    rw [Literal.text, readToken_scalar (Scalar.text_date _) scalar, scalarKind_date,
      toOption_literalOf]
    exact congrArg _ parse
  | time value =>
    rw [Literal.text, readToken_scalar (Scalar.text_time _) scalar, scalarKind_time,
      toOption_literalOf]
    exact congrArg _ parse
  | dateTime value =>
    rw [Literal.text, readToken_scalar (Scalar.text_dateTime _) scalar, scalarKind_dateTime,
      toOption_literalOf]
    exact congrArg _ parse
  | zonedDateTime value =>
    rw [Literal.text, readToken_scalar (Scalar.queryText_zoned _) scalar, scalarKind_zoned,
      toOption_literalOf]
    exact congrArg _ parse
  | intRange range =>
    rw [Literal.text, readToken_rangeText fun n _ => Scalar.integerText _, rangeKind_int,
      toOption_literalOf]
    exact congrArg _ parse
  | decimalRange range =>
    rw [Literal.text, readToken_rangeText fun d _ => Scalar.queryText_decimal _,
      rangeKind_decimal, toOption_literalOf]
    exact congrArg _ parse
  | dateTimeRange range =>
    rw [Literal.text, readToken_rangeText fun z _ => Scalar.queryText_zoned _,
      rangeKind_zoned, toOption_literalOf]
    exact congrArg _ parse
  | enum token =>
    rw [Literal.text, readToken_word (word_enum _) word, wordLiteral?_enum, toOption_orInvalid]
    rfl
  | locale tag =>
    rw [Literal.text, readToken_locale (tick_not_mem_tag tag), toOption_literalOf]
    exact congrArg _ parse
  | multiple => exact absurd rfl h

/-- A single literal starts with a mark of its own, a digit or a sign, or it is a word. -/
theorem text_starts {l : Literal} (h : l.kind ≠ .multiple) :
    (Word l.text ∧ wordLiteral? l.text = some l ∧ l.readable = true ∧ l.normal = l) ∨
      ∃ c rest, l.text = c :: rest ∧
        (c = '\'' ∨ c = '\x60' ∨ c = '[' ∨ isScalarStart c = true) := by
  have scalar {text : List Char} (h : Scalar text) : ∃ c rest, text = c :: rest ∧
      (c = '\'' ∨ c = '\x60' ∨ c = '[' ∨ isScalarStart c = true) := by
    obtain ⟨c, rest, text, start⟩ := h.start
    exact ⟨c, rest, text, .inr (.inr (.inr start))⟩
  cases l with
  | string value => exact .inr ⟨_, _, rfl, .inl rfl⟩
  | int value => exact .inr (scalar (Scalar.integerText _))
  | decimal value => exact .inr (scalar (Scalar.queryText_decimal _))
  | boolean value => exact .inl ⟨word_boolean value, wordLiteral?_boolean value, rfl, rfl⟩
  | date value => exact .inr (scalar (Scalar.text_date _))
  | time value => exact .inr (scalar (Scalar.text_time _))
  | dateTime value => exact .inr (scalar (Scalar.text_dateTime _))
  | zonedDateTime value => exact .inr (scalar (Scalar.queryText_zoned _))
  | intRange range => exact .inr ⟨_, _, rfl, .inr (.inr (.inl rfl))⟩
  | decimalRange range => exact .inr ⟨_, _, rfl, .inr (.inr (.inl rfl))⟩
  | dateTimeRange range => exact .inr ⟨_, _, rfl, .inr (.inr (.inl rfl))⟩
  | enum token => exact .inl ⟨word_enum token, wordLiteral?_enum token, rfl, rfl⟩
  | locale tag => exact .inr ⟨_, _, rfl, .inr (.inl rfl)⟩
  | multiple => exact absurd rfl h

end CatalogQuery.Grammar
