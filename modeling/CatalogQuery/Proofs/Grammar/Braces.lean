import CatalogQuery.Proofs.Grammar.Calls

namespace CatalogQuery.Grammar

open Text (skipBlanks)

/-- Literals with a comma after each, and blanks around them. -/
def Begun (inside : List Char) : Prop :=
  ∃ items : List (Literal × List (List Char)), (∀ i ∈ items, LiteralSpelled i.1 i.2) ∧
    LaidOut (items.flatMap fun i => i.2 ++ [[',']]) inside

/-- What stands before a place directly inside of braces: the opening brace, and after it
literals with a comma after each. -/
def InBraces (before : List Char) : Prop :=
  ∃ outer inside, before = outer ++ '\x7b' :: inside ∧ Begun inside

theorem InBraces.prepend {before : List Char} (h : InBraces before) (pre : List Char) :
    InBraces (pre ++ before) := by
  obtain ⟨outer, inside, rfl, begun⟩ := h
  exact ⟨pre ++ outer, inside, (List.append_assoc _ _ _).symm, begun⟩

section
variable {α : Type} {P : α → List (List Char) → Prop} {D : List Char → Prop} {item : Reader α}

/-- If a reader does not show the character at which it halts, it has taken something before. -/
def Hides (D : List Char → Prop) (item : Reader α) : Prop :=
  ∀ text rest, item text = .error ⟨rest, true⟩ → ∃ used, text = used ++ rest ∧ D used

/-- What was taken before an item of a list: other items, and a comma before each. -/
def AfterItems (P : α → List (List Char) → Prop) (D : List Char → Prop) (used : List Char) : Prop :=
  ∃ (items : List (α × List (List Char))) (pre own : List Char), used = pre ++ own ∧ D own ∧
    (∀ i ∈ items, P i.1 i.2) ∧ LaidOut (items.flatMap (fun i => [','] :: i.2) ++ [[',']]) pre

theorem hides_items (takes : Takes P item) (hides : Hides D item) (closing : Char) (limit : Nat) :
    Hides (AfterItems P D) (readItems item closing limit) := by
  intro text rest h
  induction limit generalizing text with
  | zero => cases h
  | succ limit ih =>
    rw [readItems] at h
    split at h
    · cases h
    · rename_i c after start
      split at h
      · cases h
      · split at h
        · rename_i comma
          subst comma
          have comma := (StartsWith.mark start).append (.blanks after)
          rcases Outcome.bind_eq_error.mp h with stopped | ⟨⟨first, after₁⟩, read, h⟩
          · obtain ⟨own, same, inside⟩ := hides _ _ stopped
            obtain ⟨pre, laidOut, rfl⟩ := comma
            exact ⟨pre ++ own, by rw [same, List.append_assoc], [], pre, own, rfl, inside,
              by simp, laidOut⟩
          · obtain ⟨tokens, hp, taken⟩ := takes _ _ _ read
            rcases Outcome.bind_eq_error.mp h with stopped | ⟨_, _, ⟨⟩⟩
            obtain ⟨_, same, items, pre, own, rfl, inside, each, laidOut⟩ := ih _ stopped
            obtain ⟨piece, first', rfl⟩ := comma.append taken
            refine ⟨piece ++ pre ++ own, by rw [same]; simp only [List.append_assoc],
              (first, tokens) :: items, piece ++ pre, own, rfl, inside,
              List.forall_mem_cons.mpr ⟨hp, each⟩, ?_⟩
            rw [List.flatMap_cons, List.append_assoc]
            exact first'.append laidOut
        · cases h

theorem hides_arguments (takes : Takes P item) (hides : Hides D item) (limit : Nat) :
    Hides (fun used => ∃ pre own, used = pre ++ own ∧ D own) (readArguments item limit) := by
  intro text rest h
  obtain ⟨blanks, -, split⟩ := StartsWith.blanks text
  unfold readArguments at h
  split at h
  · cases h
  · rcases Outcome.bind_eq_error.mp h with stopped | ⟨⟨first, after⟩, read, h⟩
    · obtain ⟨own, same, inside⟩ := hides _ _ stopped
      exact ⟨blanks ++ own, by rw [List.append_assoc, ← same, ← split], blanks, own, rfl, inside⟩
    · obtain ⟨tokens, -, piece, -, same⟩ := takes _ _ _ read
      rcases Outcome.bind_eq_error.mp h with stopped | ⟨_, _, ⟨⟩⟩
      obtain ⟨_, same', -, pre, own, rfl, inside, -⟩ :=
        hides_items takes hides ')' limit _ _ stopped
      refine ⟨blanks ++ (piece ++ pre) ++ own, ?_, blanks ++ (piece ++ pre), own, rfl, inside⟩
      rw [split, same, same']
      simp only [List.append_assoc]

end

/-! ### Literals -/

/-- A place directly inside of braces; or none at all was taken, where the first character of a
token is hidden. -/
def Direct (hidden : Bool) (used : List Char) : Prop := InBraces used ∨ hidden = true ∧ used = []

theorem inBraces_of_begun {pre own : List Char} (begun : Begun pre) (h : Direct true own) :
    InBraces ('\x7b' :: (pre ++ own)) := by
  rcases h with inside | ⟨-, rfl⟩
  · exact inside.prepend ('\x7b' :: pre)
  · rw [List.append_nil]
    exact ⟨[], pre, rfl, begun⟩

theorem start_of_orInvalid {start after rest : List Char} {hidden : Bool} {value : Option Literal}
    (h : orInvalid start hidden after value = .error ⟨rest, true⟩) :
    hidden = true ∧ rest = start := by
  cases value with
  | none =>
    cases h
    exact ⟨rfl, rfl⟩
  | some l => cases h

theorem scanBetween_shows {opening closing : Char} {p : Char → Bool} {text rest : List Char} :
    scanBetween opening closing p text ≠ .error ⟨rest, true⟩ := by
  intro h
  unfold scanBetween at h
  dsimp only at h
  split at h
  · cases h
  · split at h <;> cases h

/-- A token is hidden as a whole. -/
theorem start_of_readToken {hidden : Bool} {text rest : List Char}
    (h : readToken hidden text = .error ⟨rest, true⟩) : hidden = true ∧ rest = text := by
  cases text with
  | nil => cases h
  | cons c after =>
    unfold readToken at h
    dsimp only at h
    split at h
    · split at h
      · exact start_of_orInvalid h
      · cases h
    · split at h
      · rcases Outcome.bind_eq_error.mp h with stopped | ⟨_, _, h⟩
        · exact absurd stopped scanBetween_shows
        · exact start_of_orInvalid h
      · split at h
        · rcases Outcome.bind_eq_error.mp h with stopped | ⟨_, _, h⟩
          · exact absurd stopped scanBetween_shows
          · exact start_of_orInvalid h
        · split at h
          · exact start_of_orInvalid h
          · split at h
            · exact start_of_orInvalid h
            · cases h

theorem commas_after {α : Type} (items : List (α × List (List Char))) :
    items.flatMap (fun i => [','] :: i.2) ++ [[',']] =
      [','] :: items.flatMap fun i => i.2 ++ [[',']] := by
  induction items with
  | nil => rfl
  | cons item items ih =>
    rw [List.flatMap_cons, List.flatMap_cons, List.append_assoc, ih]
    simp

/-- **Literals hide places directly inside of braces.** -/
theorem hides_literal (depth : Nat) (hidden : Bool) :
    Hides (Direct hidden) (readLiteral depth hidden) := by
  induction depth generalizing hidden with
  | zero =>
    intro text rest h
    cases h
  | succ depth ih =>
    intro text rest h
    unfold readLiteral at h
    split at h
    · rename_i inside
      have takes := takes_literal depth true
      -- In each case literals and commas stand before the one that is hidden.
      suffices begun : ∃ pre own, inside = pre ++ own ++ rest ∧ Begun pre ∧ Direct true own by
        obtain ⟨pre, own, same, begun, direct⟩ := begun
        exact ⟨'\x7b' :: (pre ++ own), by rw [same]; rfl, .inl (inBraces_of_begun begun direct)⟩
      rcases Outcome.bind_eq_error.mp h with stopped | ⟨⟨first, rest₁⟩, read₁, h⟩
      · obtain ⟨blanks, laidOut, split⟩ := StartsWith.blanks inside
        obtain ⟨own, same, direct⟩ := ih true _ _ stopped
        refine ⟨blanks, own, ?_, ⟨[], by simp, laidOut⟩, direct⟩
        rw [List.append_assoc, ← same, ← split]
      obtain ⟨tokens₁, spelled₁, taken₁⟩ := takes _ _ _ read₁
      rcases Outcome.bind_eq_error.mp h with stopped | ⟨rest₂, comma, h⟩
      · unfold readComma at stopped
        split at stopped <;> cases stopped
      obtain ⟨after, start, rfl⟩ := readComma_eq_ok comma
      have taken₂ := taken₁.of_skipBlanks.append ((StartsWith.mark start).append (.blanks after))
      rcases Outcome.bind_eq_error.mp h with stopped | ⟨⟨second, rest₃⟩, read₃, h⟩
      · obtain ⟨own, same, direct⟩ := ih true _ _ stopped
        obtain ⟨pre, laidOut, rfl⟩ := taken₂
        refine ⟨pre, own, by rw [List.append_assoc, ← same], ⟨[(first, tokens₁)], ?_, ?_⟩, direct⟩
        · simpa using spelled₁
        · simpa using laidOut
      obtain ⟨tokens₂, spelled₂, taken₃⟩ := takes _ _ _ read₃
      rcases Outcome.bind_eq_error.mp h with stopped | ⟨_, _, ⟨⟩⟩
      obtain ⟨_, same, items, pre, own, rfl, direct, each, laidOut⟩ :=
        hides_items takes (ih true) _ _ _ _ stopped
      obtain ⟨piece, laidOut', rfl⟩ := taken₂.append taken₃
      refine ⟨piece ++ pre, own, by rw [same]; simp only [List.append_assoc],
        ⟨(first, tokens₁) :: (second, tokens₂) :: items, ?_, ?_⟩, direct⟩
      · exact List.forall_mem_cons.mpr ⟨spelled₁, List.forall_mem_cons.mpr ⟨spelled₂, each⟩⟩
      · rw [commas_after] at laidOut
        have whole := laidOut'.append laidOut
        simpa using whole
    · obtain ⟨own, rfl⟩ := start_of_readToken h
      exact ⟨[], rfl, .inr ⟨own, rfl⟩⟩

/-! ### Nodes -/

/-- **Nodes hide places directly inside of braces**, and no others. -/
theorem hides_node (depth : Nat) : Hides InBraces (readNode depth) := by
  induction depth with
  | zero =>
    intro text rest h
    cases h
  | succ depth ih =>
    intro text rest h
    rw [readNode] at h
    split at h
    · have word := StartsWith.token (scanWord text).1 (scanWord text).2
      have split : (scanWord text).1 ++ (scanWord text).2 = text :=
        List.takeWhile_append_dropWhile
      rw [split] at word
      unfold readWordNode at h
      dsimp only at h
      split at h
      · rename_i inside bracket
        rcases Outcome.bind_eq_error.mp h with stopped | ⟨_, _, ⟨⟩⟩
        obtain ⟨_, same, pre, own, rfl, hidden⟩ :=
          hides_arguments (takes_node depth) ih _ _ _ stopped
        obtain ⟨piece, -, whole⟩ := word.append (.mark bracket)
        refine ⟨piece ++ (pre ++ own), ?_, (hidden.prepend pre).prepend piece⟩
        rw [whole, same]
        simp only [List.append_assoc]
      · split at h <;> cases h
    · cases read : readLiteral (depth + 1) false text with
      | ok found =>
        rw [read] at h
        cases h
      | error failure =>
        rw [read] at h
        cases h
        obtain ⟨used, same, hidden | ⟨⟨⟩, -⟩⟩ := hides_literal _ _ _ _ read
        exact ⟨used, same, hidden⟩

/-- A character that is not shown stands directly inside of braces. -/
theorem inBraces_of_readRoot {text rest : List Char} (h : readRoot text = .error ⟨rest, true⟩) :
    ∃ before, text = before ++ rest ∧ InBraces before := by
  rcases Outcome.bind_eq_error.mp h with stopped | ⟨_, _, h⟩
  · obtain ⟨used, same, hidden⟩ := hides_node _ _ _ stopped
    obtain ⟨blanks, -, split⟩ := StartsWith.blanks text
    exact ⟨blanks ++ used, by rw [List.append_assoc, ← same, ← split], hidden.prepend blanks⟩
  · dsimp only at h
    split at h <;> cases h

end CatalogQuery.Grammar
