import CatalogQuery.Proofs.Grammar.Literals
import CatalogQuery.Proofs.Render.Passages

/-!
# Indented text is compact text in pieces

Indented text is compact text with line breaks in it: before each item and before the closing
bracket of a list that holds constraints, and nowhere else. A line is as deep as there are such
lists open where it starts.
-/

namespace CatalogQuery

open Marked (unmarked cuts pieces)

namespace Outline

/-- Marks in the text of an outline that make it the rendered text, at some depth. -/
structure Drawn (marks : List Mark) (item : Outline) (rendered : List Char → List Char)
    (depth : Nat) : Prop where
  plain : Marked.plain marks = item.text
  broken : ∀ indent, Marked.broken indent marks = rendered indent
  nonempty : item.text ≠ []
  row : ∀ offset, Row offset (offset + item.text.length) depth [] (cuts offset marks)
    (item.passages offset)
  inside : ∀ offset, ∀ cut ∈ cuts offset marks, offset < cut.1

/-- A line break, and then a drawn item. -/
theorem Drawn.item {marks : List Mark} {item : Outline} {rendered : List Char → List Char}
    {depth : Nat} (h : Drawn marks item rendered depth) (offset : Nat) :
    Row offset (offset + item.text.length) depth [offset] (cuts offset (.newLine depth :: marks))
      (item.passages offset) :=
  (h.row offset).item (Nat.lt_add_of_pos_right (List.length_pos_of_ne_nil h.nonempty))
    (h.inside offset)

/-- Drawn items make a row, each on a line of its own. -/
theorem exists_row {items : List (Outline × (List Char → List Char))} {depth : Nat}
    (some : items ≠ [])
    (each : ∀ item ∈ items, ∃ marks, Drawn marks item.1 item.2 depth) :
    ∃ marks, Marked.plain marks = [','].intercalate (items.map (·.1.text)) ∧
      (∀ indent, Marked.broken indent marks = Layout.newLine indent depth ++
        (',' :: Layout.newLine indent depth).intercalate (items.map (·.2 indent))) ∧
      ∀ offset, Row offset (offset + (Marked.plain marks).length) depth
        (Passage.startsFrom offset (items.map (·.1.text))) (cuts offset marks)
        (passagesFrom offset (items.map Prod.fst)) := by
  induction items with
  | nil => exact absurd rfl some
  | cons item rest ih =>
    rw [List.forall_mem_cons] at each
    obtain ⟨⟨own, drawn⟩, others⟩ := each
    by_cases last : rest = []
    · refine ⟨.newLine depth :: own, ?_, ?_, ?_⟩
      · rw [last, List.map_singleton, List.intercalate_singleton]
        exact drawn.plain
      · intro indent
        rw [last, List.map_singleton, List.intercalate_singleton, Marked.broken, drawn.broken]
      · intro offset
        have row := drawn.item offset
        rw [← drawn.plain] at row
        rw [last]
        simpa [Passage.startsFrom, passagesFrom, Marked.plain] using row
    · obtain ⟨later, plain, broken, row⟩ := ih last others
      refine ⟨.newLine depth :: (own ++ .char ',' :: later), ?_, ?_, ?_⟩
      · have more : rest.map (·.1.text) ≠ [] := by simpa using last
        rw [Marked.plain, Marked.plain_append, Marked.plain, drawn.plain, plain, List.map_cons,
          List.intercalate_cons_of_ne_nil more, List.append_assoc]
        rfl
      · intro indent
        have more : rest.map (·.2 indent) ≠ [] := by simpa using last
        rw [Marked.broken, Marked.broken_append, Marked.broken, drawn.broken, broken, List.map_cons,
          List.intercalate_cons_of_ne_nil more, List.append_assoc]
        rfl
      · intro offset
        have joined := (drawn.item offset).append (row (offset + item.1.text.length + 1))
          (Nat.le_succ _) (by omega) (by omega)
        simp only [List.map_cons, Passage.startsFrom, passagesFrom, Marked.plain,
          Marked.plain_append, List.length_append, List.length_cons, drawn.plain, Marked.cuts,
          Marked.cuts_append]
        simpa only [Marked.cuts, List.cons_append, List.nil_append, Nat.add_assoc,
          Nat.add_comm 1] using joined

/-- Drawn items make a list with constraints in it. -/
theorem Drawn.nested {items : List (Outline × (List Char → List Char))} {depth : Nat}
    (some : items ≠ [])
    (each : ∀ item ∈ items, ∃ marks, Drawn marks item.1 item.2 (depth + 1)) (keyword : List Char) :
    ∃ marks, Drawn marks (call keyword true (items.map Prod.fst)) (fun indent =>
      keyword ++ (Layout.indented indent).nested depth (items.map (·.2 indent))) depth := by
  obtain ⟨inner, plain, broken, row⟩ := exists_row some each
  have texts : (items.map Prod.fst).map text = items.map (·.1.text) := List.map_map
  let own (offset : Nat) : Passage := ⟨offset, keyword, items.map (·.1.text), true⟩
  let marks := unmarked (keyword ++ ['(']) ++ inner ++ [.newLine depth, .char ')']
  have breaks (offset : Nat) : cuts offset marks =
      cuts ((own offset).opening + 1) inner ++ [((own offset).closing, depth)] := by
    simp [marks, own, cuts, plain, Passage.opening, Passage.closing, Nat.add_assoc]
  have inside (offset : Nat) := row ((own offset).opening + 1)
  refine ⟨marks, ?_, ?_, ?_, ?_, ?_⟩
  · simp [marks, Marked.plain, plain, call, texts]
  · intro indent
    simp [marks, Marked.broken, broken, Layout.nested, Layout.indented]
  · simp [call]
  · intro offset
    have upper : offset + (call keyword true (items.map Prod.fst)).text.length =
        (own offset).closing + 1 := by
      simp [own, call, texts, Passage.opening, Passage.closing]
      omega
    rw [breaks, upper, call, texts]
    rw [plain] at inside
    exact (inside offset).nested rfl
  · intro offset cut hcut
    have below := (own offset).start_le_opening
    rw [breaks, List.mem_append, List.mem_singleton] at hcut
    rcases hcut with inner | rfl
    · exact Nat.lt_of_lt_of_le (Nat.lt_succ_of_le below) ((inside offset).cuts_within cut inner).1
    · exact Nat.lt_of_le_of_lt below (own offset).opening_lt_closing

/-- A text without line breaks is drawn by itself. -/
theorem Drawn.unbroken {item : Outline} {depth : Nat} (nonempty : item.text ≠ [])
    (flat : ∀ offset, Row offset (offset + item.text.length) depth [] [] (item.passages offset)) :
    Drawn (unmarked item.text) item (fun _ => item.text) depth where
  plain := Marked.plain_unmarked _
  broken indent := Marked.broken_unmarked _ indent
  nonempty := nonempty
  row offset := by
    rw [Marked.cuts_unmarked]
    exact flat offset
  inside offset := by
    rw [Marked.cuts_unmarked]
    exact List.forall_mem_nil _

theorem drawn_literal (l : Literal) (depth : Nat) :
    Drawn (unmarked l.text) (literal l) (fun _ => l.text) depth := by
  obtain ⟨c, rest, text, -⟩ := Grammar.opens_text l
  have nonempty : (literal l).text ≠ [] := by simp [literal, text]
  exact .unbroken nonempty fun _ => Row.nil

/-- A list of literals is written in one piece. -/
theorem drawn_flat (keyword : List Char) (arguments : List Literal) (depth : Nat) :
    Drawn (unmarked (keyword ++ Layout.flat (arguments.map Literal.text)))
      (call keyword false (arguments.map literal))
      (fun _ => keyword ++ Layout.flat (arguments.map Literal.text)) depth := by
  have texts : (arguments.map literal).map text = arguments.map Literal.text := List.map_map
  have none (offset : Nat) : passagesFrom offset (arguments.map literal) = [] := by
    induction arguments generalizing offset with
    | nil => rfl
    | cons l ls ih =>
      rw [List.map_cons, passagesFrom, ih List.map_map]
      rfl
  have whole : (call keyword false (arguments.map literal)).text =
      keyword ++ Layout.flat (arguments.map Literal.text) := by rw [call, texts, Layout.flat]
  rw [← whole]
  refine .unbroken (by simp [whole, Layout.flat]) ?_
  intro offset
  let own : Passage := ⟨offset, keyword, arguments.map Literal.text, false⟩
  have upper : offset + (keyword ++ Layout.flat (arguments.map Literal.text)).length =
      own.closing + 1 := by
    simp [own, Layout.flat, Passage.opening, Passage.closing]
    omega
  have passages : (call keyword false (arguments.map literal)).passages offset = [own] := by
    rw [call, texts]
    exact congrArg _ (none _)
  have flat : own.nested = false := rfl
  rw [whole, upper, passages]
  exact Row.flat flat

end Outline

open Outline (Drawn)

/-- The indented text of a constraint is its compact text with marks in it. -/
theorem Constraint.exists_drawn {c : Category} (tree : Constraint c) (depth : Nat) :
    ∃ marks, Drawn marks tree.outline
      (fun indent => tree.render (.indented indent) depth) depth := by
  induction tree using induct generalizing depth with
  | node kind arguments children ih =>
    rw [outline_node]
    by_cases leaf : children = []
    · rw [leaf]
      simp only [render_leaf]
      rw [List.map_nil, List.append_nil]
      exact ⟨_, Outline.drawn_flat kind.keyword.toList arguments depth⟩
    · let items : List (Outline × (List Char → List Char)) :=
        arguments.map (fun l => (.literal l, fun _ => l.text)) ++ children.map fun child =>
          (child.outline, fun indent => child.render (.indented indent) (depth + 1))
      have outlines : items.map Prod.fst =
          arguments.map Outline.literal ++ children.map outline := by
        simp [items, Function.comp_def]
      have texts (indent : List Char) : items.map (·.2 indent) =
          arguments.map Literal.text ++ children.map (render (.indented indent) (depth + 1)) := by
        simp [items, Function.comp_def]
      have each : ∀ item ∈ items, ∃ marks, Drawn marks item.1 item.2 (depth + 1) := by
        rw [List.forall_mem_append, List.forall_mem_map, List.forall_mem_map]
        exact ⟨fun l _ => ⟨_, Outline.drawn_literal l _⟩, fun child hc => ih child hc _⟩
      obtain ⟨marks, drawn⟩ := Drawn.nested (by simp [items, leaf]) each kind.keyword.toList
      simp only [render_container kind arguments _ _ leaf, ← texts, ← outlines]
      have holds : (!children.isEmpty) = true := by simpa using leaf
      rw [holds]
      exact ⟨marks, drawn⟩

/-- The indented text of a query is its compact text with marks in it. -/
theorem Query.exists_drawn (q : Query) :
    ∃ marks, Drawn marks q.outline (fun indent => q.render (.indented indent)) 0 := by
  let items : List (Outline × (List Char → List Char)) := q.parts.map fun any =>
    (any.constraint.outline, fun indent => any.constraint.render (.indented indent) 1)
  have outlines : items.map Prod.fst = q.parts.map fun any => any.constraint.outline := by
    simp [items, Function.comp_def]
  have texts (indent : List Char) :
      items.map (·.2 indent) = q.renderParts (.indented indent) := by
    simp [items, renderParts_eq, Function.comp_def]
  have each : ∀ item ∈ items, ∃ marks, Drawn marks item.1 item.2 1 := by
    rw [List.forall_mem_map]
    exact fun any _ => any.constraint.exists_drawn 1
  obtain ⟨marks, drawn⟩ := Drawn.nested (by simp [items, parts]) each keyword.toList
  simp only [render, outline, ← texts, ← outlines]
  exact ⟨marks, drawn⟩

/-- What is said of the pieces of an indented text, by the compact text and its passages. -/
structure Pieced (pieces : List Piece) (indented : List Char → List Char) (compact : Outline) :
    Prop where
  joined : ∀ indent, indented indent = Piece.join indent pieces
  bodies : pieces.flatMap Piece.body = compact.text
  first : pieces.head?.map Piece.depth = some 0
  apart : ((Piece.placed 0 pieces).map Prod.fst).Pairwise (· < ·)
  depths : ∀ start ∈ Piece.placed 0 pieces,
    start.2 = (compact.passages 0).countP (·.isOpenAt start.1)
  starts : ∀ offset, offset ∈ (Piece.placed 0 pieces).map Prod.fst ↔
    offset = 0 ∨ ∃ p ∈ compact.passages 0, p.BreaksAt offset
  whole : ∀ p ∈ compact.passages 0, p.nested = false →
    ∀ start ∈ Piece.placed 0 pieces, ¬(p.start < start.1 ∧ start.1 ≤ p.closing)

theorem Outline.Drawn.pieced {marks : List Mark} {item : Outline}
    {rendered : List Char → List Char} (h : Drawn marks item rendered 0) :
    Pieced (pieces marks) rendered item := by
  have row := h.row 0
  have placed := Marked.placed_pieces marks
  constructor
  · intro indent
    rw [Marked.join_pieces, h.broken]
  · rw [Marked.flatMap_pieces, h.plain]
  · rfl
  · rw [placed, List.map_cons, List.pairwise_cons, List.forall_mem_map]
    exact ⟨h.inside 0, row.increasing⟩
  · rw [placed, List.forall_mem_cons]
    constructor
    · rw [Row.countP_eq_zero fun p _ => .inl (Nat.zero_le p.start)]
    · intro cut hcut
      rw [row.depths cut hcut, Nat.zero_add]
  · intro offset
    rw [placed, List.map_cons, List.mem_cons, row.exact]
    simp
  · intro p hp flat
    rw [placed, List.forall_mem_cons]
    exact ⟨fun inside => absurd inside.1 (Nat.not_lt_zero _), row.whole p hp flat⟩

/-- **Indented text is compact text in pieces**, whatever the indentation is. The same pieces
make all indented texts of a constraint or a query, each on a line of its own with as many
indentations as lists with constraints are open where it starts; together they are the compact
text. Each item of such a list and its closing bracket start a piece, and nothing else does, so
lists without constraints are never broken. -/
theorem indented_is_compact_in_pieces :
    (∀ (c : Category) (tree : Constraint c),
      tree.outline.text = tree.text ∧ (∀ p ∈ tree.outline.passages 0, p.StandsIn tree.text) ∧
      ∃ pieces, Pieced pieces (fun indent => tree.render (.indented indent) 0) tree.outline) ∧
    ∀ q : Query,
      q.outline.text = q.text ∧ (∀ p ∈ q.outline.passages 0, p.StandsIn q.text) ∧
      ∃ pieces, Pieced pieces (fun indent => q.render (.indented indent)) q.outline := by
  constructor
  · intro c tree
    have stands := tree.sound_outline [] []
    obtain ⟨marks, drawn⟩ := tree.exists_drawn 0
    rw [List.nil_append, List.append_nil, tree.text_outline] at stands
    exact ⟨tree.text_outline, stands, pieces marks, drawn.pieced⟩
  · intro q
    have stands := q.sound_outline [] []
    obtain ⟨marks, drawn⟩ := q.exists_drawn
    rw [List.nil_append, List.append_nil, q.text_outline] at stands
    exact ⟨q.text_outline, stands, pieces marks, drawn.pieced⟩

end CatalogQuery
