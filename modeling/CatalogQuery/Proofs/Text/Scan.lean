import CatalogQuery.Text.Blank

namespace CatalogQuery.Text

/-- A text that does not go on with a character of a class. -/
def Leaves (p : Char → Bool) (rest : List Char) : Prop := ∀ c ∈ rest.head?, p c = false

section
variable {p : Char → Bool} {rest : List Char}

@[simp] theorem leaves_nil : Leaves p [] := by simp [Leaves]

@[simp] theorem leaves_cons {c : Char} : Leaves p (c :: rest) ↔ p c = false := by
  simp [Leaves]

/-- Only the first character counts. -/
theorem Leaves.of_head?_eq {rest' : List Char} (h : Leaves p rest)
    (head : rest'.head? = rest.head?) : Leaves p rest' := by
  rw [Leaves, head]
  exact h

theorem takeWhile_of_leaves (h : Leaves p rest) : rest.takeWhile p = [] := by
  cases rest with
  | nil => rfl
  | cons c rest =>
    rw [List.takeWhile_cons, leaves_cons.mp h]
    rfl

theorem dropWhile_of_leaves (h : Leaves p rest) : rest.dropWhile p = rest := by
  cases rest with
  | nil => rfl
  | cons c rest =>
    rw [List.dropWhile_cons, leaves_cons.mp h]
    rfl

theorem takeWhile_append {piece : List Char} (hp : ∀ c ∈ piece, p c = true)
    (h : Leaves p rest) : (piece ++ rest).takeWhile p = piece := by
  rw [List.takeWhile_append_of_pos hp, takeWhile_of_leaves h, List.append_nil]

theorem dropWhile_append {piece : List Char} (hp : ∀ c ∈ piece, p c = true)
    (h : Leaves p rest) : (piece ++ rest).dropWhile p = rest := by
  rw [List.dropWhile_append_of_pos hp, dropWhile_of_leaves h]

/-- A character of a class is not one that is outside the class. -/
theorem ne_of_class {c d : Char} (h : p c = true) (other : p d = false) : c ≠ d := by
  rintro rfl
  rw [h] at other
  cases other

theorem leaves_dropWhile (p : Char → Bool) (text : List Char) : Leaves p (text.dropWhile p) := by
  induction text with
  | nil => exact leaves_nil
  | cons c rest ih =>
    rw [List.dropWhile_cons]
    by_cases h : p c = true
    · rw [if_pos h]
      exact ih
    · rw [if_neg h]
      simpa using h

/-- Every text is a piece of the class and a rest that does not go on with it. -/
theorem exists_leaves (p : Char → Bool) (text : List Char) :
    ∃ piece rest, text = piece ++ rest ∧ (∀ c ∈ piece, p c = true) ∧ Leaves p rest :=
  ⟨text.takeWhile p, text.dropWhile p, List.takeWhile_append_dropWhile.symm,
    List.all_eq_true.mp List.all_takeWhile, leaves_dropWhile p text⟩

end

/-! ### Blanks -/

theorem skipBlanks_of_leaves {rest : List Char} (h : Leaves isBlank rest) :
    skipBlanks rest = rest :=
  dropWhile_of_leaves h

theorem skipBlanks_append {blanks : List Char} (hb : ∀ c ∈ blanks, isBlank c = true)
    (rest : List Char) : skipBlanks (blanks ++ rest) = skipBlanks rest :=
  List.dropWhile_append_of_pos hb

@[simp] theorem skipBlanks_skipBlanks (text : List Char) :
    skipBlanks (skipBlanks text) = skipBlanks text :=
  skipBlanks_of_leaves (leaves_dropWhile _ _)

@[simp] theorem skipBlanks_nil : skipBlanks [] = [] := rfl

theorem skipBlanks_cons {c : Char} (h : isBlank c = false) (rest : List Char) :
    skipBlanks (c :: rest) = c :: rest :=
  skipBlanks_of_leaves (leaves_cons.mpr h)

/-- A text that has no blanks at its ends is its own trimmed text. -/
theorem trim_eq_self {text : List Char} (h₁ : Leaves isBlank text)
    (h₂ : Leaves isBlank text.reverse) : trim text = text := by
  rw [trim, skipBlanks_of_leaves h₁, skipBlanks_of_leaves h₂, List.reverse_reverse]

/-- No letter, digit or other character up to `~` but the space and the controls is blank. -/
theorem isBlank_eq_false {c : Char} (h₁ : 0x20 < c.toNat) (h₂ : c.toNat < 0x7F) :
    isBlank c = false := by
  have hn : c.toNat ≠ 0x20 := by omega
  simp only [isBlank, Bool.or_eq_false_iff, Bool.and_eq_false_iff, decide_eq_false_iff_not,
    beq_eq_false_iff_ne, ne_eq]
  omega

end CatalogQuery.Text
