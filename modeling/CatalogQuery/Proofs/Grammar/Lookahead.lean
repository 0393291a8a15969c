import CatalogQuery.Proofs.Grammar.Depth
import CatalogQuery.Proofs.Grammar.Punctuation

/-!
# Readers look one character ahead

Where a reader cannot go on, it has seen what it has taken so far and the next character. Only
a token is looked at as a whole: if it converts to no literal, the reader halts where it starts.
So a text is refused for what stands in it up to there, and for no reason beyond.

* `Refused`: the tokens that convert to no literal;
* `Halt`: where a reader halts, and what it has seen of the text;
* `OneAhead`: a reader that looks one character ahead, whether it halts or gets through;
* `OneAhead.bind`: one reading after the other;
* `oneAhead_literal`, `oneAhead_node`, `oneAhead_root`: all readers look one character ahead.
-/

namespace CatalogQuery.Grammar

open Text (Leaves isBlank skipBlanks)

/-- A token that converts to no literal, before a text that does not go on with it. -/
inductive Refused : List Char → List Char → Prop
  | locale {tag after : List Char} : '\x60' ∉ tag →
    (Literal.parse .locale ('\x60' :: tag ++ ['\x60'])).toOption = none →
    Refused ('\x60' :: tag ++ ['\x60']) after
  | range {content after : List Char} : (∀ c ∈ content, c ≠ '[' ∧ c ≠ ']') →
    (Literal.parse (rangeKind ('[' :: content ++ [']'])) ('[' :: content ++ [']'])).toOption =
      none →
    Refused ('[' :: content ++ [']']) after
  | scalar {token after : List Char} : Scalar token → Leaves isScalarChar after →
    (Literal.parse (scalarKind token) token).toOption = none → Refused token after
  | word {token after : List Char} : Word token → Leaves isWordChar after →
    wordLiteral? token = none → Refused token after

/-- A refused token starts with no bracket, brace or comma. -/
theorem Refused.starts {token after : List Char} (h : Refused token after) :
    ∃ c tail, token = c :: tail ∧ c ∉ marks := by
  cases h with
  | locale _ _ => exact ⟨_, _, rfl, by decide⟩
  | range _ _ => exact ⟨_, _, rfl, by decide⟩
  | scalar scalar _ _ =>
    obtain ⟨c, tail, rfl, start⟩ := scalar.start
    exact ⟨c, tail, rfl, not_mark_of_class (by decide) start⟩
  | word word _ _ =>
    obtain ⟨c, tail, rfl, start⟩ := word.start
    exact ⟨c, tail, rfl, not_mark_of_class (by decide) start⟩

/-- What follows a refused token has no part in which character it starts with. -/
theorem Refused.head?_eq {token after : List Char} (h : Refused token after)
    (used after' : List Char) :
    (used ++ (token ++ after')).head? = (used ++ (token ++ after)).head? := by
  obtain ⟨c, tail, rfl, -⟩ := h.starts
  cases used <;> rfl

/-! ### Halting -/

/-- Where a reader halts in a text: at its end, at a character, or before a token that converts
to no literal. It halts likewise in every text that is the same up to that character, or up to
the end of that token. -/
inductive Halt (course : List Char → Except Failure (List Char)) (text : List Char) :
    Failure → Prop
  | ending : Halt course text ⟨[], false⟩
  | character {used tail : List Char} {c : Char} : text = used ++ c :: tail →
    (∀ tail', course (used ++ c :: tail') = .error ⟨c :: tail', false⟩) →
    Halt course text ⟨c :: tail, false⟩
  | token {used token after : List Char} {hidden : Bool} : text = used ++ (token ++ after) →
    Refused token after →
    (∀ after', Refused token after' →
      course (used ++ (token ++ after')) = .error ⟨token ++ after', hidden⟩) →
    Halt course text ⟨token ++ after, hidden⟩

/-- A reader that gets through a text gets likewise through every text that is the same up to the
character after what it takes. -/
def Passes (course : List Char → Except Failure (List Char)) (text rest : List Char) : Prop :=
  ∃ used, text = used ++ rest ∧
    ∀ rest' : List Char, rest'.head? = rest.head? → course (used ++ rest') = .ok rest'

/-- A reader that looks one character ahead in a text. -/
structure OneAhead (course : List Char → Except Failure (List Char)) (text : List Char) : Prop where
  halts : ∀ failure, course text = .error failure → Halt course text failure
  passes : ∀ rest, course text = .ok rest → Passes course text rest

section
variable {course next : List Char → Except Failure (List Char)} {text rest last : List Char}
  {failure : Failure}

/-- A reader halts where it goes on like another one that halts. -/
theorem Halt.after (h : Halt next rest failure) (pre : List Char)
    (same : ∀ rest' : List Char, rest'.head? = rest.head? → course (pre ++ rest') = next rest') :
    Halt course (pre ++ rest) failure := by
  cases h with
  | ending => exact .ending
  | @character used tail c split halts =>
    subst split
    rw [← List.append_assoc]
    refine .character rfl ?_
    intro tail'
    rw [List.append_assoc, same _ (by cases used <;> rfl), halts]
  | @token used token after hidden split refused halts =>
    subst split
    rw [← List.append_assoc]
    refine .token rfl refused ?_
    intro after' refused'
    rw [List.append_assoc, same _ (refused.head?_eq used after'), halts after' refused']

theorem Passes.after (h : Passes next rest last) (pre : List Char)
    (same : ∀ rest' : List Char, rest'.head? = rest.head? → course (pre ++ rest') = next rest') :
    Passes course (pre ++ rest) last := by
  obtain ⟨used, rfl, passes⟩ := h
  refine ⟨pre ++ used, (List.append_assoc _ _ _).symm, ?_⟩
  intro last' head
  have first : (used ++ last').head? = (used ++ last).head? := by
    cases used with
    | nil => exact head
    | cons c used => rfl
  rw [List.append_assoc, same _ first, passes last' head]

/-- A reader looks one character ahead where it goes on like another one that does. -/
theorem OneAhead.after (h : OneAhead next rest) (pre : List Char)
    (same : ∀ rest' : List Char, rest'.head? = rest.head? → course (pre ++ rest') = next rest') :
    OneAhead course (pre ++ rest) where
  halts failure stopped := (h.halts failure ((same rest rfl).symm.trans stopped)).after pre same
  passes last read := (h.passes last ((same rest rfl).symm.trans read)).after pre same

/-- Where the first of two readers halts, both do. -/
theorem Halt.bind (h : Halt course text failure) :
    Halt (fun text => course text >>= next) text failure := by
  cases h with
  | ending => exact .ending
  | character split halts =>
    refine .character split ?_
    intro tail'
    rw [halts]
    rfl
  | token split refused halts =>
    refine .token split refused ?_
    intro after' refused'
    rw [halts after' refused']
    rfl

/-- **One reading after the other looks one character ahead** if both do. -/
theorem OneAhead.bind (first : OneAhead course text)
    (second : ∀ rest : List Char, rest.length ≤ text.length → OneAhead next rest) :
    OneAhead (fun text => course text >>= next) text := by
  cases read : course text with
  | error failure =>
    constructor
    · intro failure' stopped
      rw [read] at stopped
      cases stopped
      exact (first.halts failure read).bind
    · intro rest through
      rw [read] at through
      cases through
  | ok rest =>
    obtain ⟨used, rfl, passes⟩ := first.passes rest read
    refine (second rest (by simp)).after used ?_
    intro rest' head
    rw [passes rest' head]
    rfl

/-! ### Single steps -/

theorem oneAhead_ending (h : course text = failAt []) : OneAhead course text where
  halts failure stopped := by
    rw [h] at stopped
    cases stopped
    exact .ending
  passes rest through := by
    rw [h] at through
    cases through

/-- A reader that refuses a character after some others halts there. -/
theorem oneAhead_refuse (used : List Char) {c : Char}
    (h : ∀ rest, course (used ++ c :: rest) = failAt (c :: rest)) (rest : List Char) :
    OneAhead course (used ++ c :: rest) where
  halts failure stopped := by
    rw [h] at stopped
    cases stopped
    exact .character rfl h
  passes rest through := by
    rw [h] at through
    cases through

theorem oneAhead_failAt (text : List Char) : OneAhead failAt text := by
  cases text with
  | nil => exact oneAhead_ending rfl
  | cons c rest => exact oneAhead_refuse [] (fun _ => rfl) rest

theorem oneAhead_done (text : List Char) : OneAhead .ok text where
  halts failure stopped := by cases stopped
  passes rest through := by
    cases through
    exact ⟨[], rfl, fun _ _ => rfl⟩

/-- A reader may skip blanks first. -/
theorem OneAhead.skipBlanks (h : OneAhead next (skipBlanks text)) :
    OneAhead (fun text => next (Text.skipBlanks text)) text := by
  have blank : ∀ c ∈ text.takeWhile isBlank, isBlank c = true :=
    List.all_eq_true.mp List.all_takeWhile
  have leaves := Text.leaves_dropWhile isBlank text
  rw [← Text.takeWhile_append_skipBlanks text]
  refine h.after _ ?_
  intro rest' head
  rw [Text.skipBlanks_append blank, Text.skipBlanks_of_leaves (leaves.of_head?_eq head)]

end

/-! ### Tokens -/

theorem scanBetween_open (opening closing : Char) {p : Char → Bool} {inside : List Char}
    (h : ∀ c ∈ inside, p c = true) : scanBetween opening closing p inside = failAt [] := by
  have whole := Text.dropWhile_append h (Text.leaves_nil (p := p))
  rw [List.append_nil] at whole
  simp only [scanBetween, whole]

theorem scanBetween_refuse (opening : Char) {closing c : Char} {p : Char → Bool}
    {inside : List Char} (h : ∀ c ∈ inside, p c = true) (out : p c = false) (other : c ≠ closing)
    (rest : List Char) :
    scanBetween opening closing p (inside ++ c :: rest) = failAt (c :: rest) := by
  simp only [scanBetween, Text.dropWhile_append h (Text.leaves_cons.mpr out), if_neg other]

/-- A token that converts to no literal is refused where it starts. -/
theorem readToken_refused {token after : List Char} (h : Refused token after) (hidden : Bool) :
    readToken hidden (token ++ after) = .error ⟨token ++ after, hidden⟩ := by
  cases h with
  | locale tag none => rw [readToken_locale tag, literalOf, none, orInvalid]
  | range content none => rw [readToken_range content, literalOf, none, orInvalid]
  | scalar scalar leaves none => rw [readToken_scalar scalar leaves, literalOf, none, orInvalid]
  | word word leaves none => rw [readToken_word word leaves, none, orInvalid]

/-- A token is taken as long as nothing goes on with it, or refused where it starts. -/
theorem oneAhead_whole {token after : List Char} {hidden : Bool} {value : Option Literal}
    (read : ∀ after' : List Char, after'.head? = after.head? →
      readToken hidden (token ++ after') = orInvalid (token ++ after') hidden after' value)
    (refused : value = none → Refused token after) :
    OneAhead (course (readToken hidden)) (token ++ after) := by
  cases value with
  | some l =>
    refine (oneAhead_done after).after token ?_
    intro after' head
    rw [course, read after' head]
    rfl
  | none =>
    have halts (after' : List Char) (h : Refused token after') :
        course (readToken hidden) (token ++ after') = .error ⟨token ++ after', hidden⟩ := by
      rw [course, readToken_refused h]
      rfl
    constructor
    · intro failure stopped
      rw [halts after (refused rfl)] at stopped
      cases stopped
      exact .token (List.nil_append _).symm (refused rfl) halts
    · intro rest through
      rw [halts after (refused rfl)] at through
      cases through

theorem oneAhead_string (hidden : Bool) {mark : Char} (quote : mark = '\'' ∨ mark = '"')
    (after : List Char) : OneAhead (course (readToken hidden)) (mark :: after) := by
  cases scanned : Text.scanQuoted? (mark :: after) with
  | none =>
    apply oneAhead_ending
    rw [course, readToken, if_pos quote, scanned]
    rfl
  | some found =>
    obtain ⟨mark', inside, quote', quoted, token, text⟩ := Text.scanQuoted?_iff.mp scanned
    obtain ⟨value, resolved⟩ := Text.unquote?_of_quoted quote' quoted
    have parsed : (Literal.parse .string (mark' :: inside)).toOption =
        some (.string (String.ofList value)) := by
      rw [Literal.parse, resolved]
      rfl
    rw [text, token]
    refine oneAhead_whole (fun after' _ => readToken_quoted quote' quoted after' hidden) ?_
    intro refused
    rw [parsed] at refused
    exact absurd refused (Option.some_ne_none _)

theorem oneAhead_locale (hidden : Bool) (after : List Char) :
    OneAhead (course (readToken hidden)) ('\x60' :: after) := by
  obtain ⟨tag, left, rfl, inside, leaves⟩ := Text.exists_leaves (· != '\x60') after
  have free : '\x60' ∉ tag := fun tick => absurd (inside _ tick) (by decide)
  cases left with
  | nil =>
    apply oneAhead_ending
    rw [course, readToken, if_neg (by decide), if_pos rfl, List.append_nil,
      scanBetween_open _ _ inside]
    rfl
  | cons c rest =>
    obtain rfl : c = '\x60' := by simpa using Text.leaves_cons.mp leaves
    have token : '\x60' :: (tag ++ '\x60' :: rest) = '\x60' :: tag ++ ['\x60'] ++ rest := by simp
    rw [token]
    exact oneAhead_whole (fun after' _ => readToken_locale free after' hidden) (.locale free)

theorem oneAhead_range (hidden : Bool) (after : List Char) :
    OneAhead (course (readToken hidden)) ('[' :: after) := by
  obtain ⟨content, left, rfl, inside, leaves⟩ :=
    Text.exists_leaves (fun c => c != '[' && c != ']') after
  have free : ∀ c ∈ content, c ≠ '[' ∧ c ≠ ']' := by
    intro c hc
    simpa using inside c hc
  cases left with
  | nil =>
    apply oneAhead_ending
    rw [course, readToken, if_neg (by decide), if_neg (by decide), if_pos rfl, List.append_nil,
      scanBetween_open _ _ inside]
    rfl
  | cons c rest =>
    have out := Text.leaves_cons.mp leaves
    by_cases close : c = ']'
    · subst close
      have token : '[' :: (content ++ ']' :: rest) = '[' :: content ++ [']'] ++ rest := by simp
      rw [token]
      exact oneAhead_whole (fun after' _ => readToken_range free after' hidden) (.range free)
    · -- Another opening bracket cannot stand in a range.
      apply oneAhead_refuse ('[' :: content)
      intro rest
      rw [course, List.cons_append, readToken, if_neg (by decide), if_neg (by decide), if_pos rfl,
        scanBetween_refuse '[' inside out close]
      rfl

theorem oneAhead_scalar (hidden : Bool) {c : Char} (start : isScalarStart c = true)
    (after : List Char) : OneAhead (course (readToken hidden)) (c :: after) := by
  have scalar := scalar_takeWhile start after
  have leaves := Text.leaves_dropWhile isScalarChar (c :: after)
  rw [← List.takeWhile_append_dropWhile (p := isScalarChar) (l := c :: after)]
  generalize (c :: after).takeWhile isScalarChar = token at *
  generalize (c :: after).dropWhile isScalarChar = rest at *
  refine oneAhead_whole ?_ (.scalar scalar leaves)
  intro after' head
  exact readToken_scalar scalar (leaves.of_head?_eq head) hidden

theorem oneAhead_bareWord (hidden : Bool) {c : Char} (start : isWordStart c = true)
    (after : List Char) : OneAhead (course (readToken hidden)) (c :: after) := by
  have word := word_takeWhile start after
  have leaves := Text.leaves_dropWhile isWordChar (c :: after)
  rw [← List.takeWhile_append_dropWhile (p := isWordChar) (l := c :: after)]
  generalize (c :: after).takeWhile isWordChar = token at *
  generalize (c :: after).dropWhile isWordChar = rest at *
  refine oneAhead_whole ?_ (.word word leaves)
  intro after' head
  exact readToken_word word (leaves.of_head?_eq head) hidden

/-- **The reader of tokens looks one character ahead.** -/
theorem oneAhead_token (hidden : Bool) (text : List Char) :
    OneAhead (course (readToken hidden)) text := by
  cases text with
  | nil => exact oneAhead_ending rfl
  | cons c after =>
    by_cases quote : c = '\'' ∨ c = '"'
    · exact oneAhead_string hidden quote after
    by_cases tick : c = '\x60'
    · exact tick ▸ oneAhead_locale hidden after
    by_cases bracket : c = '['
    · exact bracket ▸ oneAhead_range hidden after
    by_cases scalar : isScalarStart c = true
    · exact oneAhead_scalar hidden scalar after
    by_cases word : isWordStart c = true
    · exact oneAhead_bareWord hidden word after
    · apply oneAhead_refuse []
      intro rest
      rw [List.nil_append, course, readToken, if_neg quote, if_neg tick, if_neg bracket,
        if_neg scalar, if_neg word]
      rfl

/-! ### Lists -/

def afterComma : List Char → Except Failure (List Char)
  | ',' :: rest => .ok (skipBlanks rest)
  | other => failAt other

/-- The reader of a comma looks one character ahead. -/
theorem oneAhead_comma (text : List Char) : OneAhead readComma text := by
  have next : OneAhead afterComma (skipBlanks text) := by
    cases skipBlanks text with
    | nil => exact oneAhead_ending rfl
    | cons c rest =>
      by_cases comma : c = ','
      · subst comma
        have blanks : OneAhead (fun text => .ok (skipBlanks text)) rest :=
          (oneAhead_done (skipBlanks rest)).skipBlanks
        exact blanks.after [','] fun _ _ => rfl
      · refine oneAhead_refuse [] ?_ rest
        intro rest'
        rw [List.nil_append]
        unfold afterComma
        split
        · rename_i same
          exact absurd (List.cons.inj same).1 comma
        · rfl
  exact next.skipBlanks

section
variable {α : Type} {P : α → List (List Char) → Prop} {item : Reader α}

/-- The reader of further items looks one character ahead if that of an item does. -/
theorem oneAhead_items (takes : Takes P item) (closing : Char) (text : List Char)
    (each : ∀ t : List Char, t.length < text.length → OneAhead (course item) t) :
    OneAhead (itemsCourse item closing) text := by
  induction n : text.length using Nat.strong_induction_on generalizing text with
  | _ n ih =>
    subst n
    rw [funext (itemsCourse_eq closing takes)]
    apply OneAhead.skipBlanks
    cases start : skipBlanks text with
    | nil => exact oneAhead_ending rfl
    | cons c rest =>
      have less := length_lt_of_mark start
      have short := Text.length_skipBlanks_le rest
      by_cases close : c = closing
      · exact (oneAhead_done rest).after [c] fun _ _ => if_pos close
      by_cases comma : c = ','
      · have first := each (skipBlanks rest) (by omega)
        have both : OneAhead (fun t => course item t >>= itemsCourse item closing)
            (skipBlanks rest) := first.bind fun after le =>
          ih after.length (by omega) after (fun t ht => each t (by omega)) rfl
        exact both.skipBlanks.after [c] fun _ _ => (if_neg close).trans (if_pos comma)
      · exact oneAhead_refuse [] (fun _ => (if_neg close).trans (if_neg comma)) rest

/-- The reader of arguments looks one character ahead if that of an argument does. -/
theorem oneAhead_arguments (takes : Takes P item) (text : List Char)
    (each : ∀ t : List Char, t.length ≤ text.length → OneAhead (course item) t) :
    OneAhead (argumentsCourse item) text := by
  have short := Text.length_skipBlanks_le text
  rw [funext (argumentsCourse_eq takes)]
  apply OneAhead.skipBlanks
  by_cases close : ∃ rest, skipBlanks text = ')' :: rest
  · obtain ⟨rest, start⟩ := close
    rw [start]
    exact (oneAhead_done rest).after [')'] fun _ _ => rfl
  · have both : OneAhead (fun t => course item t >>= itemsCourse item ')') (skipBlanks text) :=
      (each _ short).bind fun after le =>
        oneAhead_items takes ')' after fun t ht => each t (by omega)
    refine both.after [] ?_
    intro rest' head
    rw [List.nil_append, firstCourse]
    rintro rest rfl
    rw [List.head?_cons, eq_comm, List.head?_eq_some_iff] at head
    exact close head

end

/-! ### Literals and nodes -/

/-- **The reader of literals looks one character ahead.** -/
theorem oneAhead_literal (hidden : Bool) (text : List Char) :
    OneAhead (literalCourse hidden) text := by
  induction n : text.length using Nat.strong_induction_on generalizing hidden text with
  | _ n ih =>
    subst n
    by_cases brace : ∃ inside, text = '\x7b' :: inside
    · obtain ⟨inside, rfl⟩ := brace
      have below (t : List Char) (ht : t.length ≤ inside.length) :
          OneAhead (literalCourse true) t :=
        ih t.length (Nat.lt_succ_of_le ht) true t rfl
      have short := Text.length_skipBlanks_le inside
      have braced : OneAhead bracedCourse inside := by
        refine OneAhead.skipBlanks ((below _ short).bind fun rest₁ le₁ => ?_)
        refine (oneAhead_comma rest₁).bind fun rest₂ le₂ => ?_
        refine (below rest₂ (by omega)).bind fun rest₃ le₃ => ?_
        exact oneAhead_items (takes_literalOfText true) '\x7d' rest₃ fun t ht =>
          below t (by omega)
      exact braced.after ['\x7b'] fun rest _ => literalCourse_braces hidden rest
    · refine (oneAhead_token hidden text).after [] ?_
      intro rest' head
      apply literalCourse_token
      rw [List.nil_append, head, ne_eq, List.head?_eq_some_iff]
      exact brace

/-- What follows a word without a bracket is left, or refused if the word is no literal. -/
theorem wordCourse_other (word : List Char) {text : List Char} (h : text.head? ≠ some '(') :
    wordCourse word text =
      if (wordLiteral? word).isSome then .ok text else failAt text := by
  rw [wordCourse]
  rintro inside rfl
  exact h rfl

theorem oneAhead_word (word text : List Char)
    (each : ∀ t : List Char, t.length < text.length → OneAhead nodeCourse t) :
    OneAhead (wordCourse word) text := by
  by_cases bracket : ∃ inside, text = '(' :: inside
  · obtain ⟨inside, rfl⟩ := bracket
    have arguments := oneAhead_arguments takes_nodeOfText inside fun t ht =>
      each t (Nat.lt_succ_of_le ht)
    exact arguments.after ['('] fun _ _ => rfl
  · have other (rest' : List Char) (head : rest'.head? = text.head?) :
        wordCourse word rest' =
          if (wordLiteral? word).isSome then .ok rest' else failAt rest' := by
      apply wordCourse_other
      rw [head, ne_eq, List.head?_eq_some_iff]
      exact bracket
    cases value : (wordLiteral? word).isSome with
    | true =>
      refine (oneAhead_done text).after [] ?_
      intro rest' head
      rw [List.nil_append, other rest' head, if_pos value]
    | false =>
      refine (oneAhead_failAt text).after [] ?_
      intro rest' head
      rw [List.nil_append, other rest' head, value, if_neg Bool.false_ne_true]

/-- **The reader of nodes looks one character ahead.** -/
theorem oneAhead_node (text : List Char) : OneAhead nodeCourse text := by
  induction n : text.length using Nat.strong_induction_on generalizing text with
  | _ n ih =>
    subst n
    by_cases start : (text.head?.map isWordStart).getD false = true
    · obtain ⟨c, tail, rfl⟩ : ∃ c tail, text = c :: tail := by
        cases text with
        | nil => cases start
        | cons c tail => exact ⟨c, tail, rfl⟩
      have word := word_takeWhile start tail
      have leaves := Text.leaves_dropWhile isWordChar (c :: tail)
      have split := List.takeWhile_append_dropWhile (p := isWordChar) (l := c :: tail)
      generalize (c :: tail).takeWhile isWordChar = token at *
      generalize (c :: tail).dropWhile isWordChar = rest at *
      rw [← split] at ih ⊢
      have short := Text.length_skipBlanks_le rest
      have next : OneAhead (fun rest => wordCourse token (skipBlanks rest)) rest := by
        refine OneAhead.skipBlanks (oneAhead_word token _ fun t ht => ih t.length ?_ t rfl)
        rw [List.length_append]
        omega
      refine next.after token ?_
      intro rest' head
      rw [nodeCourse_eq, if_pos (head_append word),
        scanWord_append word (leaves.of_head?_eq head)]
    · refine (oneAhead_literal false text).after [] ?_
      intro rest' head
      rw [List.nil_append, nodeCourse_eq, head, if_neg start]

theorem oneAhead_end (text : List Char) : OneAhead endCourse text := by
  cases text with
  | nil =>
    refine (oneAhead_done []).after [] ?_
    intro rest' head
    rw [List.head?_eq_none_iff.mp head]
    rfl
  | cons c rest =>
    apply oneAhead_refuse []
    intro rest'
    rfl

/-- **The reader of whole texts looks one character ahead.** -/
theorem oneAhead_root (text : List Char) : OneAhead rootCourse text :=
  OneAhead.skipBlanks ((oneAhead_node (skipBlanks text)).bind fun rest _ =>
    (oneAhead_end (skipBlanks rest)).skipBlanks)

end CatalogQuery.Grammar
