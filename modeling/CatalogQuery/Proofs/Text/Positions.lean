import CatalogQuery.Calendar.Reader
import CatalogQuery.Proofs.Text.Scan
import CatalogQuery.Text.Position
import Mathlib.Data.List.Induction

/-!
# Places in a text

A place is told apart from every other place of the text by its line and column. Walking
through a text character by character, counting the line feeds before an offset, and cutting
the text at its line feeds come to the same places.
-/

namespace CatalogQuery.Text

open Calendar (byteLength)

namespace Position

/-- The place after some characters: a line for each line feed, and a column for each character
since the last one, both from one. -/
def after (before : List Char) : Position :=
  ⟨before.count '\n' + 1, (before.reverse.takeWhile (· != '\n')).length + 1⟩

theorem after_snoc (before : List Char) (c : Char) :
    after (before ++ [c]) = (after before).next c := by
  unfold after next
  rw [List.count_append, List.reverse_append, List.reverse_singleton, List.singleton_append]
  by_cases feed : c = '\n'
  · rw [if_pos feed, List.takeWhile_cons_of_neg (by simp [feed]), feed]
    rfl
  · rw [if_neg feed, List.takeWhile_cons_of_pos (by simpa using feed), List.count_singleton,
      if_neg (by simpa using feed)]
    rfl

/-- Character by character the place after a text is reached. -/
theorem foldl_next (before : List Char) : before.foldl next start = after before := by
  induction before using List.reverseRecOn with
  | nil => rfl
  | append_singleton before c ih => rw [List.foldl_append, ih, after_snoc]; rfl

/-- The place of the first token is the one after the blanks before it. -/
theorem firstToken_eq (text : List Char) : firstToken text = after (text.takeWhile isBlank) := by
  have taken := List.prefix_iff_eq_take.mp (List.takeWhile_prefix isBlank (l := text))
  rw [firstToken, ofOffset, leadingBlanks, ← taken, foldl_next]

theorem ofRemaining_append (before source : List Char) :
    ofRemaining (before ++ source) source.length = after before := by
  rw [ofRemaining, ofOffset, List.length_append, Nat.add_sub_cancel, List.take_left, foldl_next]

/-! ### Order -/

/-- Places are ordered by their lines, and within a line by their columns. -/
instance instLT : LT Position :=
  ⟨fun p q => p.line < q.line ∨ p.line = q.line ∧ p.column < q.column⟩

theorem lt_def {p q : Position} :
    p < q ↔ p.line < q.line ∨ p.line = q.line ∧ p.column < q.column := Iff.rfl

theorem lt_next (p : Position) (c : Char) : p < p.next c := by
  unfold next
  split <;> simp [lt_def]

theorem lt_trans {p q r : Position} (hpq : p < q) (hqr : q < r) : p < r := by
  simp only [lt_def] at *
  omega

/-- Characters lead on to a later place. -/
theorem after_lt_after (before : List Char) {mid : List Char} (h : mid ≠ []) :
    after before < after (before ++ mid) := by
  induction mid using List.reverseRecOn with
  | nil => exact absurd rfl h
  | append_singleton mid c ih =>
    rw [← List.append_assoc, after_snoc]
    by_cases first : mid = []
    · simpa [first] using lt_next (after before) c
    · exact lt_trans (ih first) (lt_next _ c)

/-- A text has no second offset at the same place. -/
theorem eq_of_after {before before' rest' : List Char} (rest : List Char)
    (split : before ++ rest = before' ++ rest') (place : after before = after before') :
    before = before' := by
  have further (before mid : List Char) (place : after (before ++ mid) = after before) :
      mid = [] := by
    by_contra some
    have later := after_lt_after before some
    simp [place, lt_def] at later
  rcases List.append_eq_append_iff.mp split with ⟨mid, rfl, -⟩ | ⟨mid, rfl, -⟩
  · rw [further before mid place.symm, List.append_nil]
  · rw [further before' mid place, List.append_nil]

/-! ### Offsets in bytes -/

/-- The characters before an offset in bytes, if it stands between two characters or at an end
of the text. -/
def before? : List Char → Nat → Option (List Char)
  | _, 0 => some []
  | [], _ + 1 => none
  | c :: rest, bytes =>
    if c.utf8Size ≤ bytes then (before? rest (bytes - c.utf8Size)).map (c :: ·) else none

/-- The place of an offset in bytes. One that stands within a character or past the end has the
place of the end. -/
def ofByte (text : List Char) (bytes : Nat) : Position := after ((before? text bytes).getD text)

/-- An offset in bytes that stands between two characters or at an end of the text. -/
def Boundary (text : List Char) (bytes : Nat) : Prop :=
  ∃ before, before <+: text ∧ byteLength before = bytes

theorem byteLength_append (before rest : List Char) :
    byteLength (before ++ rest) = byteLength before + byteLength rest := by
  induction before with
  | nil => simp [byteLength]
  | cons c before ih => simp [byteLength, ih, Nat.add_assoc]

theorem byteLength_eq_zero {text : List Char} : byteLength text = 0 ↔ text = [] := by
  cases text with
  | nil => simp [byteLength]
  | cons c rest =>
    have := c.utf8Size_pos
    simp [byteLength]
    omega

/-- Of two beginnings of a text the one with fewer bytes is a beginning of the other. -/
theorem exists_mid {text before before' : List Char} (h : before <+: text) (h' : before' <+: text)
    (fewer : byteLength before < byteLength before') : ∃ mid ≠ [], before' = before ++ mid := by
  rcases List.prefix_or_prefix_of_prefix h h' with ⟨mid, rfl⟩ | ⟨mid, rfl⟩
  · refine ⟨mid, ?_, rfl⟩
    rintro rfl
    simp at fewer
  · simp only [byteLength_append] at fewer
    omega

theorem before?_eq_some {text before : List Char} {bytes : Nat} :
    before? text bytes = some before ↔ before <+: text ∧ byteLength before = bytes := by
  induction text generalizing before bytes with
  | nil =>
    cases bytes with
    | zero => simp +contextual [before?, byteLength_eq_zero, eq_comm (a := [])]
    | succ n =>
      simp only [before?, reduceCtorEq, false_iff, not_and, List.prefix_nil]
      rintro rfl
      simp [byteLength]
  | cons c rest ih =>
    have pos := c.utf8Size_pos
    cases bytes with
    | zero =>
      simp only [before?, Option.some.injEq, byteLength_eq_zero]
      constructor
      · rintro rfl
        simp
      · exact fun h => h.2.symm
    | succ n =>
      cases before with
      | nil => simp [before?, byteLength]
      | cons d before =>
        simp only [before?, Option.ite_none_right_eq_some, Option.map_eq_some_iff, ih,
          List.cons.injEq, List.cons_prefix_cons, byteLength]
        constructor
        · rintro ⟨_, _, ⟨start, _⟩, rfl, rfl⟩
          exact ⟨⟨rfl, start⟩, by omega⟩
        · rintro ⟨⟨rfl, start⟩, bytes⟩
          exact ⟨by omega, before, ⟨start, by omega⟩, rfl, rfl⟩

/-- Between two characters the place is that of the characters before. -/
theorem ofByte_before {text before : List Char} (h : before <+: text) :
    ofByte text (byteLength before) = after before := by
  simp [ofByte, before?_eq_some.mpr ⟨h, rfl⟩]

theorem ofByte_of_le {text : List Char} {bytes : Nat} (h : byteLength text ≤ bytes) :
    ofByte text bytes = after text := by
  unfold ofByte
  cases found : before? text bytes with
  | none => rfl
  | some before =>
    obtain ⟨⟨rest, rfl⟩, rfl⟩ := before?_eq_some.mp found
    rw [byteLength_append] at h
    obtain rfl : rest = [] := byteLength_eq_zero.mp (by omega)
    simp

/-- **Places grow with their offsets.** -/
theorem ofByte_lt_ofByte {text : List Char} {bytes bytes' : Nat} (h : Boundary text bytes)
    (h' : Boundary text bytes') (lt : bytes < bytes') : ofByte text bytes < ofByte text bytes' := by
  obtain ⟨before, start, rfl⟩ := h
  obtain ⟨before', start', rfl⟩ := h'
  obtain ⟨mid, some, rfl⟩ := exists_mid start start' lt
  rw [ofByte_before start, ofByte_before start']
  exact after_lt_after before some

/-! ### Lines -/

/-- The characters before a place: the lines above it, each with its line feed, and those of
its own line before its column. -/
def upTo? (text : List Char) : Position → Option (List Char)
  | ⟨line + 1, column + 1⟩ =>
    let lines := text.splitOn '\n'
    lines[line]?.bind fun own =>
      if column ≤ own.length then
        some ((lines.take line).flatMap (· ++ ['\n']) ++ own.take column)
      else none
  | _ => none

def byteAt? (text : List Char) (p : Position) : Option Nat := (upTo? text p).map byteLength

/-- A text is a line, or a line above a text. -/
@[elab_as_elim]
theorem induct_lines {motive : List Char → Prop} (last : ∀ own, '\n' ∉ own → motive own)
    (line : ∀ own rest, '\n' ∉ own → motive rest → motive (own ++ '\n' :: rest))
    (text : List Char) : motive text := by
  by_cases feed : '\n' ∈ text
  · obtain ⟨own, rest, rfl, plain⟩ := List.eq_append_cons_of_mem feed
    exact line own rest plain (induct_lines last line rest)
  · exact last text feed
termination_by text.length
decreasing_by
  subst text
  simp
  omega

theorem after_of_line {own : List Char} (plain : '\n' ∉ own) :
    after own = ⟨1, own.length + 1⟩ := by
  have all : own.reverse.takeWhile (· != '\n') = own.reverse := by
    have kept : ∀ c ∈ own.reverse, (c != '\n') = true := by grind
    have whole : (own.reverse ++ []).takeWhile (· != '\n') = own.reverse ++ [] :=
      List.takeWhile_append_of_pos kept
    simpa using whole
  simp [after, all, List.count_eq_zero.mpr plain]

/-- A line above a place adds a line and no column. -/
theorem after_line {own : List Char} (plain : '\n' ∉ own) (before : List Char) :
    after (own ++ '\n' :: before) = ⟨(after before).line + 1, (after before).column⟩ := by
  induction before using List.reverseRecOn with
  | nil =>
    rw [after_snoc, after_of_line plain]
    rfl
  | append_singleton before c ih =>
    rw [← List.cons_append, ← List.append_assoc, after_snoc, ih, after_snoc]
    by_cases feed : c = '\n' <;> simp [next, feed]

theorem after_line_eq_iff {own before : List Char} (plain : '\n' ∉ own) {line column : Nat} :
    after (own ++ '\n' :: before) = ⟨line + 2, column⟩ ↔ after before = ⟨line + 1, column⟩ := by
  rw [after_line plain]
  cases after before
  simp

/-- A beginning of a text ends in its first line or below. -/
theorem prefix_line {own rest before : List Char} :
    before <+: own ++ '\n' :: rest ↔
      before <+: own ∨ ∃ below, below <+: rest ∧ before = own ++ '\n' :: below := by
  constructor
  · intro start
    rcases List.prefix_or_prefix_of_prefix start (List.prefix_append own _) with inside | ⟨mid, rfl⟩
    · exact .inl inside
    · have start := (List.prefix_append_right_inj own).mp start
      cases mid with
      | nil => simp
      | cons c below =>
        obtain ⟨rfl, deeper⟩ := List.cons_prefix_cons.mp start
        exact .inr ⟨below, deeper, rfl⟩
  · rintro (inside | ⟨below, start, rfl⟩)
    · exact inside.trans (List.prefix_append own _)
    · simpa using start

/-- In the first line a column counts the characters before it. -/
theorem after_inside {own before : List Char} (plain : '\n' ∉ own) (inside : before <+: own) :
    after before = ⟨1, before.length + 1⟩ :=
  after_of_line fun feed => plain (inside.subset feed)

theorem take_eq_some {own before : List Char} (plain : '\n' ∉ own) (column : Nat) :
    (if column ≤ own.length then some (own.take column) else none) = some before ↔
      before <+: own ∧ after before = ⟨1, column + 1⟩ := by
  rw [Option.ite_none_right_eq_some, Option.some.injEq]
  constructor
  · rintro ⟨fits, rfl⟩
    refine ⟨List.take_prefix .., ?_⟩
    simp [after_inside plain (List.take_prefix ..), fits]
  · rintro ⟨inside, same⟩
    obtain rfl : before.length = column := by simpa [after_inside plain inside] using same
    exact ⟨inside.length_le, (List.prefix_iff_eq_take.mp inside).symm⟩

theorem upTo?_line {own : List Char} (plain : '\n' ∉ own) (rest : List Char) (line column : Nat) :
    upTo? (own ++ '\n' :: rest) ⟨line + 2, column + 1⟩ =
      (upTo? rest ⟨line + 1, column + 1⟩).map (own ++ '\n' :: ·) := by
  simp only [upTo?, List.splitOn_append_cons_self_of_not_mem plain, List.getElem?_cons_succ]
  cases (rest.splitOn '\n')[line]? with
  | none => rfl
  | some found =>
    simp only [Option.bind_some]
    split <;> simp

/-- **The characters before a place** are found from its line and column, and only those of a
place in the text are. -/
theorem upTo?_eq_some {text before : List Char} {p : Position} :
    upTo? text p = some before ↔ before <+: text ∧ after before = p := by
  induction text using induct_lines generalizing before p with
  | last own plain =>
    match p with
    | ⟨0, _⟩ | ⟨_ + 1, 0⟩ => simp [upTo?, after]
    | ⟨1, column + 1⟩ =>
      simpa [upTo?, List.splitOn_eq_singleton plain] using take_eq_some plain column
    | ⟨line + 2, column + 1⟩ =>
      simp +contextual [upTo?, List.splitOn_eq_singleton plain, after_inside plain]
  | line own rest plain ih =>
    -- A place on the first line is within it, and any other is one line up in what follows.
    rw [prefix_line]
    match p with
    | ⟨0, _⟩ | ⟨_ + 1, 0⟩ => simp [upTo?, after]
    | ⟨1, column + 1⟩ =>
      have below (mid : List Char) : after (own ++ '\n' :: mid) ≠ ⟨1, column + 1⟩ := by
        simp [after]
      have inLine : (if column ≤ own.length then some (own.take column) else none) = some before ↔
          before <+: own ∧ after before = ⟨1, column + 1⟩ := take_eq_some plain column
      simp only [upTo?, List.splitOn_append_cons_self_of_not_mem plain]
      constructor
      · intro h
        exact ⟨.inl (inLine.mp (by simpa using h)).1, (inLine.mp (by simpa using h)).2⟩
      · rintro ⟨inside | ⟨mid, _, rfl⟩, place⟩
        · simpa using inLine.mpr ⟨inside, place⟩
        · exact absurd place (below mid)
    | ⟨line + 2, column + 1⟩ =>
      simp only [upTo?_line plain, Option.map_eq_some_iff, ih]
      constructor
      · rintro ⟨mid, ⟨start, place⟩, rfl⟩
        exact ⟨.inr ⟨mid, start, rfl⟩, (after_line_eq_iff plain).mpr place⟩
      · rintro ⟨inside | ⟨mid, start, rfl⟩, place⟩
        · simp [after_inside plain inside] at place
        · exact ⟨mid, ⟨start, (after_line_eq_iff plain).mp place⟩, rfl⟩

theorem byteAt?_eq_some {text : List Char} {p : Position} {bytes : Nat} :
    byteAt? text p = some bytes ↔ Boundary text bytes ∧ p = ofByte text bytes := by
  simp only [byteAt?, Option.map_eq_some_iff, upTo?_eq_some, Boundary]
  constructor
  · rintro ⟨before, ⟨start, rfl⟩, rfl⟩
    exact ⟨⟨before, start, rfl⟩, (ofByte_before start).symm⟩
  · rintro ⟨⟨before, start, rfl⟩, rfl⟩
    exact ⟨before, ⟨start, (ofByte_before start).symm⟩, rfl⟩

end Position

open Position in
/-- **Positions identify places.** Between the characters of a text the line and column grow
with the offset in bytes, the offset is found again from them, and offsets past the end have
the place of the end. Walking through the text by characters comes to the same places, and the
first token is where the first character stands that is not blank, or else at the end. -/
theorem positions_identify_places (text : List Char) :
    (∀ bytes bytes', Boundary text bytes → Boundary text bytes' → bytes < bytes' →
      ofByte text bytes < ofByte text bytes') ∧
    (∀ p bytes, byteAt? text p = some bytes ↔ Boundary text bytes ∧ p = ofByte text bytes) ∧
    (∀ bytes, byteLength text ≤ bytes → ofByte text bytes = ofByte text (byteLength text)) ∧
    (∀ before rest, text = before ++ rest →
      ofOffset text before.length = ofByte text (byteLength before) ∧
      ofRemaining text rest.length = ofByte text (byteLength before)) ∧
    (∀ offset, text.length ≤ offset → ofOffset text offset = ofByte text (byteLength text)) ∧
    ∃ blanks rest, text = blanks ++ rest ∧ (∀ c ∈ blanks, isBlank c = true) ∧
      Leaves isBlank rest ∧ firstToken text = ofByte text (byteLength blanks) := by
  have whole : ofByte text (byteLength text) = after text := ofByte_of_le (Nat.le_refl _)
  refine ⟨fun _ _ => ofByte_lt_ofByte, fun _ _ => byteAt?_eq_some, ?_, ?_, ?_, ?_⟩
  · intro bytes past
    rw [ofByte_of_le past, whole]
  · rintro before rest rfl
    have start : before <+: before ++ rest := List.prefix_append ..
    simp [ofByte_before start, ofRemaining_append, ofOffset, foldl_next]
  · intro offset past
    rw [whole, ofOffset, List.take_of_length_le past, foldl_next]
  · have split := takeWhile_append_skipBlanks text
    have start : text.takeWhile isBlank <+: text := List.takeWhile_prefix isBlank
    refine ⟨text.takeWhile isBlank, skipBlanks text, split.symm, ?_, leaves_dropWhile _ _, ?_⟩
    · exact List.all_eq_true.mp List.all_takeWhile
    · rw [ofByte_before start, firstToken_eq]

/-- A wide blank of three bytes, a line feed and a letter of two bytes. -/
def wideIndented : List Char := ['\u3000', '\n', 'é']

open Position in
theorem wideIndented_placed :
    ofByte wideIndented 3 < ofByte wideIndented 4 ∧ byteAt? wideIndented ⟨2, 1⟩ = some 4 ∧
    ofByte wideIndented 9 = ofByte wideIndented 6 ∧
    ofOffset wideIndented 2 = ofByte wideIndented 4 ∧
    ofOffset wideIndented 5 = ofByte wideIndented 6 := by
  obtain ⟨grows, found, past, same, beyond, -⟩ := positions_identify_places wideIndented
  have blank : Boundary wideIndented 3 := ⟨['\u3000'], by decide, rfl⟩
  have line : Boundary wideIndented 4 := ⟨['\u3000', '\n'], by decide, rfl⟩
  exact ⟨grows 3 4 blank line (by decide), (found _ _).mpr ⟨line, rfl⟩, past 9 (by decide),
    (same ['\u3000', '\n'] ['é'] rfl).1, beyond 5 (by decide)⟩

end CatalogQuery.Text
