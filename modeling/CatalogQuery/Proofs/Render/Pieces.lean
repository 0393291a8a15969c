import CatalogQuery.Render

/-!
# Texts in pieces

A text can be written with marks between its characters at which a line may be broken, each
with the depth to which the new line is indented. The marks cut the text into pieces: with a
line break before each piece but the first it is the broken text, and without it is the plain
one.
-/

namespace CatalogQuery

theorem Layout.newLine_eq (indent : List Char) (depth : Nat) :
    newLine indent depth = '\n' :: (List.replicate depth indent).flatten := rfl

/-- A piece of a text that stands on a line of its own, indented to a depth. -/
structure Piece where
  depth : Nat
  body : List Char

namespace Piece

/-- Pieces that follow others, each after a line break and the indentation repeated as often as
the piece is deep. This does not refer to what a layout writes. -/
def further (indent : List Char) (pieces : List Piece) : List Char :=
  pieces.flatMap fun piece =>
    '\n' :: (List.replicate piece.depth indent).flatten ++ piece.body

/-- The bodies of pieces with line breaks between them. -/
def join (indent : List Char) : List Piece → List Char
  | [] => []
  | first :: rest => first.body ++ further indent rest

/-- The offsets at which pieces start in the text of their bodies, with their depths. -/
def placed (offset : Nat) : List Piece → List (Nat × Nat)
  | [] => []
  | piece :: rest => (offset, piece.depth) :: placed (offset + piece.body.length) rest

end Piece

/-- A character of a text, or a place at which a line may be broken. -/
inductive Mark
  | char (c : Char)
  | newLine (depth : Nat)

namespace Marked

def unmarked (text : List Char) : List Mark := text.map .char

def plain : List Mark → List Char
  | [] => []
  | .char c :: rest => c :: plain rest
  | .newLine _ :: rest => plain rest

def broken (indent : List Char) : List Mark → List Char
  | [] => []
  | .char c :: rest => c :: broken indent rest
  | .newLine depth :: rest => Layout.newLine indent depth ++ broken indent rest

/-- Where line breaks stand in the plain text, and their depths. -/
def cuts (offset : Nat) : List Mark → List (Nat × Nat)
  | [] => []
  | .char _ :: rest => cuts (offset + 1) rest
  | .newLine depth :: rest => (offset, depth) :: cuts offset rest

/-- The text before the first line break, and the pieces after it. -/
def split : List Mark → List Char × List Piece
  | [] => ([], [])
  | .char c :: rest => (c :: (split rest).1, (split rest).2)
  | .newLine depth :: rest => ([], ⟨depth, (split rest).1⟩ :: (split rest).2)

/-- The pieces of a text; the first one is not indented. -/
def pieces (marks : List Mark) : List Piece := ⟨0, (split marks).1⟩ :: (split marks).2

variable (marks marks' : List Mark) (text : List Char) (offset : Nat)

@[simp] theorem plain_unmarked : plain (unmarked text) = text := by
  induction text with
  | nil => rfl
  | cons c text ih =>
    rw [unmarked, List.map_cons, plain]
    exact congrArg (c :: ·) ih

@[simp] theorem broken_unmarked (indent : List Char) : broken indent (unmarked text) = text := by
  induction text with
  | nil => rfl
  | cons c text ih =>
    rw [unmarked, List.map_cons, broken]
    exact congrArg (c :: ·) ih

@[simp] theorem cuts_unmarked : cuts offset (unmarked text) = [] := by
  induction text generalizing offset with
  | nil => rfl
  | cons c text ih => exact ih (offset + 1)

@[simp] theorem plain_append : plain (marks ++ marks') = plain marks ++ plain marks' := by
  induction marks with
  | nil => rfl
  | cons mark marks ih => cases mark <;> simp [plain, ih]

@[simp] theorem broken_append (indent : List Char) :
    broken indent (marks ++ marks') = broken indent marks ++ broken indent marks' := by
  induction marks with
  | nil => rfl
  | cons mark marks ih => cases mark <;> simp [broken, ih]

@[simp] theorem cuts_append : cuts offset (marks ++ marks') =
    cuts offset marks ++ cuts (offset + (plain marks).length) marks' := by
  induction marks generalizing offset with
  | nil => rfl
  | cons mark marks ih => cases mark <;> simp [plain, cuts, ih, Nat.add_assoc, Nat.add_comm 1]

/-! ### Pieces -/

theorem broken_eq (indent : List Char) :
    broken indent marks = (split marks).1 ++ Piece.further indent (split marks).2 := by
  induction marks with
  | nil => rfl
  | cons mark marks ih =>
    cases mark with
    | char c => rw [broken, split, ih, List.cons_append]
    | newLine depth =>
      rw [broken, split, ih, Piece.further, Piece.further, List.flatMap_cons, List.nil_append,
        List.append_assoc, Layout.newLine_eq]

theorem join_pieces (indent : List Char) :
    Piece.join indent (pieces marks) = broken indent marks := (broken_eq marks indent).symm

theorem flatMap_pieces : (pieces marks).flatMap Piece.body = plain marks := by
  induction marks with
  | nil => rfl
  | cons mark marks ih =>
    cases mark with
    | char c => exact congrArg (c :: ·) ih
    | newLine depth => exact ih

/-- A piece starts at each mark, and at the start of the text. -/
theorem placed_pieces : Piece.placed 0 (pieces marks) = (0, 0) :: cuts 0 marks := by
  have after (offset : Nat) :
      Piece.placed (offset + (split marks).1.length) (split marks).2 = cuts offset marks := by
    induction marks generalizing offset with
    | nil => rfl
    | cons mark marks ih =>
      cases mark with
      | char c =>
        rw [cuts, split, ← ih (offset + 1), List.length_cons, Nat.add_right_comm, Nat.add_assoc]
      | newLine depth => rw [cuts, split, List.length_nil, Nat.add_zero, Piece.placed, ih offset]
  rw [pieces, Piece.placed, after 0]

end Marked
end CatalogQuery
