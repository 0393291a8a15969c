import CatalogQuery.Proofs.Grammar.Calls

/-!
# Budgets are never used up

The readers of lists and of nested constraints have a budget, so that they end. What is left
of a text gets shorter with each item, and a budget beyond its length makes no difference.
-/

namespace CatalogQuery.Grammar

open Text (skipBlanks length_skipBlanks_le)

section
variable {α : Type} {P : α → List (List Char) → Prop} {item item' : Reader α}

theorem Takes.length_le (h : Takes P item) {text rest : List Char} {a : α}
    (read : item text = .ok (a, rest)) : rest.length ≤ text.length := by
  obtain ⟨_, -, started⟩ := h _ _ _ read
  exact started.ending.length_le

theorem length_lt_of_mark {c : Char} {text rest : List Char} (h : skipBlanks text = c :: rest) :
    rest.length < text.length := by
  have short := length_skipBlanks_le text
  rw [h, List.length_cons] at short
  exact short

/-- Readers of items that agree on shorter texts read the same list. -/
theorem readItems_congr (takes : Takes P item) (closing : Char) {limit limit' : Nat}
    {text : List Char} (same : ∀ t : List Char, t.length < text.length → item t = item' t)
    (h : text.length < limit) (h' : text.length < limit') :
    readItems item closing limit text = readItems item' closing limit' text := by
  induction limit generalizing limit' text with
  | zero => exact absurd h (Nat.not_lt_zero _)
  | succ limit ih =>
    obtain ⟨limit', rfl⟩ : ∃ n, limit' = n + 1 := ⟨limit' - 1, by omega⟩
    rw [readItems, readItems]
    split
    · rfl
    · rename_i c rest start
      have less := length_lt_of_mark start
      have short := length_skipBlanks_le rest
      rw [← same (skipBlanks rest) (by omega)]
      split
      · rfl
      · split
        · apply Outcome.bind_congr
          rintro ⟨first, after⟩ read
          have shorter := takes.length_le read
          have others : readItems item closing limit after = readItems item' closing limit' after :=
            ih (fun t ht => same t (by omega)) (by omega) (by omega)
          dsimp only
          rw [others]
        · rfl

/-- Readers of items that agree on texts that are no longer read the same arguments. -/
theorem readArguments_congr (takes : Takes P item) {limit limit' : Nat} {text : List Char}
    (same : ∀ t : List Char, t.length ≤ text.length → item t = item' t)
    (h : text.length < limit) (h' : text.length < limit') :
    readArguments item limit text = readArguments item' limit' text := by
  have short := length_skipBlanks_le text
  unfold readArguments
  split
  · rfl
  · rw [← same (skipBlanks text) short]
    apply Outcome.bind_congr
    rintro ⟨first, after⟩ read
    have shorter := takes.length_le read
    have others : readItems item ')' limit after = readItems item' ')' limit' after :=
      readItems_congr takes ')' (fun t ht => same t (by omega)) (by omega) (by omega)
    dsimp only
    rw [others]

end

theorem length_le_of_readComma {text rest : List Char} (h : readComma text = .ok rest) :
    rest.length ≤ text.length := by
  obtain ⟨after, start, rfl⟩ := readComma_eq_ok h
  exact (length_skipBlanks_le after).trans (length_lt_of_mark start).le

theorem readLiteral_congr {depth depth' : Nat} {text : List Char} (hidden : Bool)
    (h : text.length < depth) (h' : text.length < depth') :
    readLiteral depth hidden text = readLiteral depth' hidden text := by
  induction depth generalizing depth' text hidden with
  | zero => exact absurd h (Nat.not_lt_zero _)
  | succ depth ih =>
    obtain ⟨depth', rfl⟩ : ∃ n, depth' = n + 1 := ⟨depth' - 1, by omega⟩
    unfold readLiteral
    split
    · rename_i inside
      rw [List.length_cons] at h h'
      have below (t : List Char) (ht : t.length ≤ inside.length) :
          readLiteral depth true t = readLiteral depth' true t := ih true (by omega) (by omega)
      have takes := takes_literal depth true
      have short := length_skipBlanks_le inside
      -- Each reading leaves less than it was given, so the budgets still agree on what is left.
      rw [← below _ short]
      apply Outcome.bind_congr
      rintro ⟨first, rest₁⟩ read₁
      have shorter₁ := takes.length_le read₁
      apply Outcome.bind_congr
      intro rest₂ read₂
      have shorter₂ := length_le_of_readComma read₂
      dsimp only at shorter₂ ⊢
      rw [← below rest₂ (by omega)]
      apply Outcome.bind_congr
      rintro ⟨second, rest₃⟩ read₃
      have shorter₃ := takes.length_le read₃
      have others : readItems (readLiteral depth true) '\x7d' (depth + 1) rest₃ =
          readItems (readLiteral depth' true) '\x7d' (depth' + 1) rest₃ :=
        readItems_congr takes '\x7d' (fun t ht => below t (by omega)) (by omega) (by omega)
      dsimp only
      rw [others]
    · rfl

theorem length_scanWord_le (text : List Char) : (scanWord text).2.length ≤ text.length :=
  (List.dropWhile_sublist _).length_le

theorem readWordNode_congr {item item' : Reader RawNode}
    (takes : Takes (fun raw tokens => TreeSpelled raw.tree tokens) item) {limit limit' : Nat}
    {text : List Char} (same : ∀ t : List Char, t.length < text.length → item t = item' t)
    (h : text.length ≤ limit) (h' : text.length ≤ limit') :
    readWordNode item limit text = readWordNode item' limit' text := by
  have word := length_scanWord_le text
  unfold readWordNode
  dsimp only
  split
  · rename_i inside bracket
    have less := length_lt_of_mark bracket
    have arguments : readArguments item limit inside = readArguments item' limit' inside :=
      readArguments_congr takes (fun t ht => same t (by omega)) (by omega) (by omega)
    rw [arguments]
  · rfl

theorem readNode_congr {depth depth' : Nat} {text : List Char} (h : text.length < depth)
    (h' : text.length < depth') : readNode depth text = readNode depth' text := by
  induction depth generalizing depth' text with
  | zero => exact absurd h (Nat.not_lt_zero _)
  | succ depth ih =>
    obtain ⟨depth', rfl⟩ : ∃ n, depth' = n + 1 := ⟨depth' - 1, by omega⟩
    rw [readNode, readNode]
    split
    · exact readWordNode_congr (takes_node depth) (fun t ht => ih (by omega) (by omega)) h.le h'.le
    · rw [readLiteral_congr false h h']

/-! ### Without budgets -/

/-- Reads a literal, however deep its braces nest. -/
def literalOfText (hidden : Bool) : Reader Literal :=
  fun text => readLiteral (text.length + 1) hidden text

def nodeOfText : Reader RawNode := fun text => readNode (text.length + 1) text

theorem takes_literalOfText (hidden : Bool) : Takes LiteralSpelled (literalOfText hidden) :=
  fun text => takes_literal (text.length + 1) hidden text

theorem takes_nodeOfText : Takes (fun raw tokens => TreeSpelled raw.tree tokens) nodeOfText :=
  fun text => takes_node (text.length + 1) text

/-- How far a reader gets in a text: what it leaves of it, whatever it has read. -/
def course {α : Type} (item : Reader α) (text : List Char) : Except Failure (List Char) :=
  (item text).map Prod.snd

/-- The course of one reading after the other. -/
theorem course_bind {α β : Type} {x : Except Failure (α × List Char)}
    {f : α × List Char → Except Failure (β × List Char)}
    {next : List Char → Except Failure (List Char)}
    (h : ∀ a rest, x = .ok (a, rest) → (f (a, rest)).map Prod.snd = next rest) :
    (x >>= f).map Prod.snd = x.map Prod.snd >>= next := by
  cases x with
  | error failure => rfl
  | ok p => exact h p.1 p.2 rfl

section
variable {α : Type} (item : Reader α) (closing : Char)

/-- How far the reader of further items gets, however many there are. -/
def itemsCourse (text : List Char) : Except Failure (List Char) :=
  course (readItems item closing (text.length + 1)) text

def argumentsCourse (text : List Char) : Except Failure (List Char) :=
  course (readArguments item (text.length + 1)) text

/-- How far the reader of a literal gets, however deep its braces nest. -/
def literalCourse (hidden : Bool) : List Char → Except Failure (List Char) :=
  course (literalOfText hidden)

def nodeCourse : List Char → Except Failure (List Char) := course nodeOfText

/-- How the reading of further items goes on after blanks. -/
def furtherCourse : List Char → Except Failure (List Char)
  | [] => failAt []
  | c :: rest =>
    if c = closing then .ok rest
    else if c = ',' then course item (skipBlanks rest) >>= itemsCourse item closing
    else failAt (c :: rest)

def firstCourse : List Char → Except Failure (List Char)
  | ')' :: rest => .ok rest
  | other => course item other >>= itemsCourse item ')'

/-- How the reading of a literal goes on after the opening brace. -/
def bracedCourse (inside : List Char) : Except Failure (List Char) :=
  literalCourse true (skipBlanks inside) >>= fun rest =>
  readComma rest >>= fun rest =>
  literalCourse true rest >>= itemsCourse (literalOfText true) '\x7d'

def wordCourse (word : List Char) : List Char → Except Failure (List Char)
  | '(' :: inside => argumentsCourse nodeOfText inside
  | other => if (wordLiteral? word).isSome then .ok other else failAt other

variable {P : α → List (List Char) → Prop} {item}

theorem itemsCourse_eq (takes : Takes P item) (text : List Char) :
    itemsCourse item closing text = furtherCourse item closing (skipBlanks text) := by
  rw [itemsCourse, course, readItems]
  split
  · rename_i start
    rw [start]
    rfl
  · rename_i c rest start
    have less := length_lt_of_mark start
    have short := length_skipBlanks_le rest
    rw [start, furtherCourse]
    split
    · rfl
    · split
      · apply course_bind
        intro first after read
        have shorter := takes.length_le read
        have others : readItems item closing text.length after =
            readItems item closing (after.length + 1) after :=
          readItems_congr takes closing (fun _ _ => rfl) (by omega) (by omega)
        dsimp only
        rw [others, itemsCourse, course]
        cases readItems item closing (after.length + 1) after <;> rfl
      · rfl

theorem argumentsCourse_eq (takes : Takes P item) (text : List Char) :
    argumentsCourse item text = firstCourse item (skipBlanks text) := by
  have short := length_skipBlanks_le text
  unfold argumentsCourse course readArguments
  split
  · rename_i rest start
    rw [start]
    rfl
  · rename_i other
    rw [firstCourse]
    · apply course_bind
      intro first after read
      have shorter := takes.length_le read
      have others : readItems item ')' (text.length + 1) after =
          readItems item ')' (after.length + 1) after :=
        readItems_congr takes ')' (fun _ _ => rfl) (by omega) (by omega)
      dsimp only
      rw [others, itemsCourse, course]
      cases readItems item ')' (after.length + 1) after <;> rfl
    · exact other

end

theorem literalCourse_braces (hidden : Bool) (inside : List Char) :
    literalCourse hidden ('\x7b' :: inside) = bracedCourse inside := by
  have within (t : List Char) (ht : t.length ≤ inside.length) :
      readLiteral (inside.length + 1) true t = literalOfText true t :=
    readLiteral_congr true (by omega) (by omega)
  have takes := takes_literalOfText true
  have short := length_skipBlanks_le inside
  rw [literalCourse, course, literalOfText, List.length_cons, readLiteral, within _ short]
  apply course_bind
  intro first rest₁ read₁
  have shorter₁ := takes.length_le read₁
  dsimp only
  cases comma : readComma rest₁ with
  | error failure => rfl
  | ok rest₂ =>
    have shorter₂ := length_le_of_readComma comma
    change ((readLiteral (inside.length + 1) true rest₂) >>= _).map Prod.snd =
      literalCourse true rest₂ >>= _
    rw [within rest₂ (by omega)]
    apply course_bind
    intro second rest₃ read₃
    have shorter₃ := takes.length_le read₃
    have others :
        readItems (readLiteral (inside.length + 1) true) '\x7d' (inside.length + 1 + 1) rest₃ =
          readItems (literalOfText true) '\x7d' (rest₃.length + 1) rest₃ :=
      readItems_congr (takes_literal _ true) '\x7d' (fun t ht => within t (by omega)) (by omega)
        (by omega)
    dsimp only
    rw [others, itemsCourse, course]
    cases readItems (literalOfText true) '\x7d' (rest₃.length + 1) rest₃ <;> rfl

theorem literalCourse_token (hidden : Bool) {text : List Char} (h : text.head? ≠ some '\x7b') :
    literalCourse hidden text = course (readToken hidden) text := by
  rw [literalCourse, course, literalOfText, readLiteral]
  · rfl
  · rintro inside rfl
    exact h rfl

theorem nodeCourse_eq (text : List Char) : nodeCourse text =
    if (text.head?.map isWordStart).getD false then
      wordCourse (scanWord text).1 (skipBlanks (scanWord text).2)
    else literalCourse false text := by
  have word := length_scanWord_le text
  unfold nodeCourse course nodeOfText
  rw [readNode]
  split
  · have wordNode : readWordNode (readNode text.length) (text.length + 1) text =
        readWordNode nodeOfText (text.length + 1) text :=
      readWordNode_congr (takes_node _) (fun t ht => readNode_congr ht (Nat.lt_succ_self _))
        (Nat.le_succ _) (Nat.le_succ _)
    rw [wordNode]
    unfold readWordNode
    dsimp only
    split
    · rename_i inside bracket
      have less := length_lt_of_mark bracket
      have arguments : readArguments nodeOfText (text.length + 1) inside =
          readArguments nodeOfText (inside.length + 1) inside :=
        readArguments_congr takes_nodeOfText (fun _ _ => rfl) (by omega) (by omega)
      rw [bracket, wordCourse, arguments, argumentsCourse, course]
      cases readArguments nodeOfText (inside.length + 1) inside <;> rfl
    · rename_i other
      rw [wordCourse]
      · cases wordLiteral? (scanWord text).1 <;> rfl
      · exact other
  · unfold literalCourse course literalOfText
    cases readLiteral (text.length + 1) false text <;> rfl

def endCourse : List Char → Except Failure (List Char)
  | [] => .ok []
  | rest => failAt rest

def rootCourse (text : List Char) : Except Failure (List Char) :=
  nodeCourse (skipBlanks text) >>= fun rest => endCourse (skipBlanks rest)

/-- The reader of a whole text halts where it gets no further. -/
theorem rootCourse_eq (text : List Char) : rootCourse text = (readRoot text).map fun _ => [] := by
  have short := length_skipBlanks_le text
  have root : readNode (text.length + 1) (skipBlanks text) = nodeOfText (skipBlanks text) :=
    readNode_congr (by omega) (by omega)
  rw [rootCourse, readRoot, root, nodeCourse, course]
  cases nodeOfText (skipBlanks text) with
  | error failure => rfl
  | ok found =>
    change endCourse (skipBlanks found.2) = (if (skipBlanks found.2).isEmpty
      then Except.ok found.1 else failAt (skipBlanks found.2)).map _
    cases skipBlanks found.2 <;> rfl

theorem readRoot_eq_error {text : List Char} {failure : Failure} :
    readRoot text = .error failure ↔ rootCourse text = .error failure := by
  rw [rootCourse_eq]
  cases readRoot text <;> simp [Except.map]

end CatalogQuery.Grammar
