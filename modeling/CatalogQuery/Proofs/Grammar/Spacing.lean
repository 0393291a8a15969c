import CatalogQuery.Proofs.Grammar.Scalar

namespace CatalogQuery.Grammar

open Text (Leaves isBlank skipBlanks)

/-- A run of blanks, which may be empty. -/
def Blank (text : List Char) : Prop := ∀ c ∈ text, isBlank c = true

/-- What follows an item: after blanks a comma, a closing bracket or nothing. -/
def Stops (rest : List Char) : Prop :=
  ∀ c ∈ (skipBlanks rest).head?, c = ',' ∨ c = ')' ∨ c = '\x7d'

/-- A text that starts with a character that is neither blank nor a closing bracket. -/
def Opens (text : List Char) : Prop := ∃ c rest, text = c :: rest ∧ isBlank c = false ∧ c ≠ ')'

theorem stops_nil : Stops [] := by simp [Stops]

theorem stops_append {blanks : List Char} (hb : Blank blanks) {c : Char} (blank : isBlank c = false)
    (h : c = ',' ∨ c = ')' ∨ c = '\x7d') (rest : List Char) : Stops (blanks ++ c :: rest) := by
  rw [Stops, Text.skipBlanks_append hb, Text.skipBlanks_cons blank]
  simpa using h

theorem Stops.after_blanks {blanks rest : List Char} (hb : Blank blanks) (h : Stops rest) :
    Stops (blanks ++ rest) := by
  rw [Stops, Text.skipBlanks_append hb]
  exact h

theorem skipBlanks_of_opens {text : List Char} (h : Opens text) (rest : List Char) :
    skipBlanks (text ++ rest) = text ++ rest := by
  obtain ⟨c, tail, rfl, blank, -⟩ := h
  exact Text.skipBlanks_cons blank _

/-- A class of characters without blanks goes on only where it goes on after them. -/
theorem leaves_of_skipBlanks {p : Char → Bool} {rest : List Char}
    (blank : ∀ c, isBlank c = true → p c = false) (h : Leaves p (skipBlanks rest)) :
    Leaves p rest := by
  cases rest with
  | nil => exact Text.leaves_nil
  | cons c rest =>
    apply Text.leaves_cons.mpr
    by_cases hc : isBlank c = true
    · exact blank c hc
    · rw [Text.skipBlanks_cons (Bool.eq_false_iff.mpr hc)] at h
      exact Text.leaves_cons.mp h

/-- Where an item may end, no class of characters goes on that has neither blanks nor
the marks of a list. -/
theorem Stops.leaves {p : Char → Bool} {rest : List Char} (h : Stops rest)
    (blank : ∀ c, isBlank c = true → p c = false) (comma : p ',' = false)
    (round : p ')' = false) (curly : p '\x7d' = false) : Leaves p rest := by
  apply leaves_of_skipBlanks blank
  intro c hc
  rcases h c hc with rfl | rfl | rfl
  · exact comma
  · exact round
  · exact curly

theorem bounds_of_isAlpha {c : Char} (h : c.isAlpha = true) :
    0x40 < c.toNat ∧ c.toNat < 0x7B := by
  have letter : (decide (c.val ≥ 65 ∧ c.val ≤ 90) || c.val ≥ 97 && c.val ≤ 122) = true := h
  simp only [Bool.or_eq_true, Bool.and_eq_true, decide_eq_true_eq, ge_iff_le,
    UInt32.le_iff_toNat_le, UInt32.reduceToNat] at letter
  have value : c.val.toNat = c.toNat := rfl
  omega

theorem bounds_of_isWordChar {c : Char} (h : isWordChar c = true) :
    0x2F < c.toNat ∧ c.toNat < 0x7B := by
  simp only [isWordChar, Char.isAlphanum, Char.isDigit, Bool.or_eq_true, Bool.and_eq_true,
    decide_eq_true_eq, beq_iff_eq, ge_iff_le, UInt32.le_iff_toNat_le, Char.reduceVal,
    UInt32.reduceToNat] at h
  have value : c.val.toNat = c.toNat := rfl
  rcases h with (letter | ⟨low, high⟩) | rfl
  · have := bounds_of_isAlpha letter
    omega
  · omega
  · decide

theorem isBlank_of_isWordChar {c : Char} (h : isWordChar c = true) : isBlank c = false := by
  obtain ⟨lower, upper⟩ := bounds_of_isWordChar h
  exact Text.isBlank_eq_false (by omega) (by omega)

theorem isWordChar_of_isBlank (c : Char) (h : isBlank c = true) : isWordChar c = false := by
  apply Bool.eq_false_iff.mpr
  intro word
  rw [isBlank_of_isWordChar word] at h
  cases h

theorem isScalarChar_of_isBlank (c : Char) (h : isBlank c = true) : isScalarChar c = false := by
  apply Bool.eq_false_iff.mpr
  intro scalar
  rw [isBlank_of_isScalarChar scalar] at h
  cases h

theorem Stops.leaves_word {rest : List Char} (h : Stops rest) : Leaves isWordChar rest :=
  h.leaves isWordChar_of_isBlank (by decide) (by decide) (by decide)

theorem Stops.leaves_scalar {rest : List Char} (h : Stops rest) : Leaves isScalarChar rest :=
  h.leaves isScalarChar_of_isBlank (by decide) (by decide) (by decide)

/-! ### Layouts -/

/-- A text that is a list of tokens in their order, with a run of blanks, which may be
empty, before each token and after the last one. -/
inductive LaidOut : List (List Char) → List Char → Prop
  | ending {blanks : List Char} : Blank blanks → LaidOut [] blanks
  | token {blanks token rest : List Char} {tokens : List (List Char)} :
    Blank blanks → LaidOut tokens rest → LaidOut (token :: tokens) (blanks ++ (token ++ rest))

theorem blank_nil : Blank [] := by simp [Blank]

theorem blank_append {a b : List Char} (ha : Blank a) (hb : Blank b) : Blank (a ++ b) := by
  intro c hc
  rcases List.mem_append.mp hc with hc | hc
  · exact ha c hc
  · exact hb c hc

namespace LaidOut

variable {tokens : List (List Char)} {token text rest : List Char}

theorem cons (h : LaidOut tokens rest) : LaidOut (token :: tokens) (token ++ rest) :=
  .token blank_nil h

theorem single (token : List Char) : LaidOut [token] token := by
  have laidOut : LaidOut [token] (token ++ []) := cons (.ending blank_nil)
  rwa [List.append_nil] at laidOut

theorem after_blanks {blanks : List Char} (hb : Blank blanks) (h : LaidOut tokens text) :
    LaidOut tokens (blanks ++ text) := by
  cases h with
  | ending hb' => exact .ending (blank_append hb hb')
  | token hb' h =>
    rw [← List.append_assoc]
    exact .token (blank_append hb hb') h

theorem append {others : List (List Char)} (h : LaidOut tokens text) (h' : LaidOut others rest) :
    LaidOut (tokens ++ others) (text ++ rest) := by
  induction h with
  | ending hb => exact h'.after_blanks hb
  | token hb _ ih =>
    simp only [List.cons_append, List.append_assoc]
    exact .token hb ih

theorem append_iff {others : List (List Char)} : LaidOut (tokens ++ others) text ↔
    ∃ first second, text = first ++ second ∧ LaidOut tokens first ∧ LaidOut others second := by
  constructor
  · intro h
    induction tokens generalizing text with
    | nil => exact ⟨[], text, rfl, .ending blank_nil, h⟩
    | cons token tokens ih =>
      cases h with
      | @token blanks _ _ _ hb h =>
        obtain ⟨first, second, rfl, hfirst, hsecond⟩ := ih h
        refine ⟨blanks ++ (token ++ first), second, ?_, .token hb hfirst, hsecond⟩
        simp only [List.append_assoc]
  · rintro ⟨first, second, rfl, hfirst, hsecond⟩
    exact hfirst.append hsecond

/-- A text laid out of tokens starts with the first one once its blanks are skipped. -/
theorem skipBlanks_eq {c : Char} {tail : List Char} (h : LaidOut ((c :: tail) :: tokens) text)
    (blank : isBlank c = false) (after : List Char) :
    ∃ rest, LaidOut tokens rest ∧ skipBlanks (text ++ after) = c :: (tail ++ (rest ++ after)) := by
  cases h with
  | @token blanks _ rest _ hb h =>
    refine ⟨rest, h, ?_⟩
    simp only [List.append_assoc, List.cons_append]
    rw [Text.skipBlanks_append hb, Text.skipBlanks_cons blank]

/-- A text is not shorter than its list of tokens, if no token is empty. -/
theorem length_le (h : LaidOut tokens text) (nonempty : ∀ t ∈ tokens, t ≠ []) :
    tokens.length ≤ text.length := by
  induction h with
  | ending _ => exact Nat.zero_le _
  | token _ _ ih =>
    have first := List.length_pos_of_ne_nil (nonempty _ List.mem_cons_self)
    have others := ih fun t ht => nonempty t (List.mem_cons_of_mem _ ht)
    simp only [List.length_cons, List.length_append]
    omega

end LaidOut

end CatalogQuery.Grammar
