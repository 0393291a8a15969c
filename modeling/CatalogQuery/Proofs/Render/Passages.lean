import CatalogQuery.Proofs.Query.Normal
import CatalogQuery.Proofs.Render.Pieces

namespace CatalogQuery

/-- A keyword with items in brackets, and where it stands in a text. -/
structure Passage where
  start : Nat
  keyword : List Char
  items : List (List Char)
  /-- Whether there are constraints among the items. -/
  nested : Bool

namespace Passage

def opening (p : Passage) : Nat := p.start + p.keyword.length

def closing (p : Passage) : Nat := p.opening + 1 + ([','].intercalate p.items).length

/-- The offsets at which items start that stand one after the other with a comma between. -/
def startsFrom (offset : Nat) : List (List Char) → List Nat
  | [] => []
  | item :: rest => offset :: startsFrom (offset + item.length + 1) rest

def itemStarts (p : Passage) : List Nat := startsFrom (p.opening + 1) p.items

/-- Whether an offset is inside the brackets of a list that holds constraints. -/
def isOpenAt (p : Passage) (offset : Nat) : Bool :=
  p.nested && decide (p.opening < offset ∧ offset < p.closing)

/-- Where a list that holds constraints goes on a new line: before each item and before the
closing bracket. -/
def BreaksAt (p : Passage) (offset : Nat) : Prop :=
  p.nested = true ∧ (offset ∈ p.itemStarts ∨ offset = p.closing)

/-- The text has the passage where it is said to be. -/
def StandsIn (p : Passage) (text : List Char) : Prop :=
  ∃ before after,
    text = before ++ (p.keyword ++ ('(' :: [','].intercalate p.items ++ [')'])) ++ after ∧
      before.length = p.start

theorem start_le_opening (p : Passage) : p.start ≤ p.opening := Nat.le_add_right _ _

theorem opening_lt_closing (p : Passage) : p.opening < p.closing := by
  rw [closing]
  omega

end Passage

/-- A text with its passages, which depend on the offset at which the text starts. -/
structure Outline where
  text : List Char
  passages : Nat → List Passage

namespace Outline

def literal (l : Literal) : Outline := ⟨l.text, fun _ => []⟩

/-- The passages of items that stand one after the other with a comma between. -/
def passagesFrom (offset : Nat) : List Outline → List Passage
  | [] => []
  | item :: rest => item.passages offset ++ passagesFrom (offset + item.text.length + 1) rest

def call (keyword : List Char) (nested : Bool) (items : List Outline) : Outline where
  text := keyword ++ ('(' :: [','].intercalate (items.map text) ++ [')'])
  passages offset := ⟨offset, keyword, items.map text, nested⟩
    :: passagesFrom (offset + keyword.length + 1) items

end Outline

mutual

/-- The compact text of a constraint with its passages. -/
def Constraint.outline {c : Category} : Constraint c → Outline
  | .node kind arguments children =>
    .call kind.keyword.toList (!children.isEmpty)
      (arguments.map .literal ++ Constraint.outlineAll children)

def Constraint.outlineAll {c : Category} : List (Constraint c) → List Outline
  | [] => []
  | first :: rest => Constraint.outline first :: Constraint.outlineAll rest

end

def Query.outline (q : Query) : Outline :=
  .call Query.keyword.toList true (q.parts.map fun any => any.constraint.outline)

namespace Constraint

variable {c : Category}

theorem outlineAll_eq (trees : List (Constraint c)) : outlineAll trees = trees.map outline := by
  induction trees with
  | nil => rfl
  | cons tree trees ih => rw [outlineAll, ih, List.map_cons]

theorem outline_node (kind : Kind c) (arguments : List Literal) (children : List (Constraint c)) :
    outline (.node kind arguments children) = .call kind.keyword.toList (!children.isEmpty)
      (arguments.map .literal ++ children.map outline) := by
  rw [outline, outlineAll_eq]

theorem text_outline (tree : Constraint c) : tree.outline.text = tree.text := by
  induction tree using induct with
  | node kind arguments children ih =>
    have below : children.map (Outline.text ∘ outline) = children.map text :=
      List.map_congr_left ih
    rw [outline_node, Outline.call, text_node, List.map_append, List.map_map, List.map_map, below]
    rfl

end Constraint

theorem Query.text_outline (q : Query) : q.outline.text = q.text := by
  have part : (Outline.text ∘ fun any : AnyConstraint => any.constraint.outline) =
      AnyConstraint.text := funext fun any => any.constraint.text_outline
  rw [outline, Outline.call, text_eq, List.map_map, part, Layout.flat]

namespace Outline

/-- The passages of a text are where they are said to be. -/
def Sound (item : Outline) : Prop :=
  ∀ before after, ∀ p ∈ item.passages before.length, p.StandsIn (before ++ item.text ++ after)

theorem stands_from {items : List Outline} (each : ∀ item ∈ items, item.Sound)
    (before after : List Char) : ∀ p ∈ passagesFrom before.length items,
      p.StandsIn (before ++ [','].intercalate (items.map text) ++ after) := by
  induction items generalizing before with
  | nil => exact List.forall_mem_nil _
  | cons item rest ih =>
    rw [List.forall_mem_cons] at each
    rw [passagesFrom, List.forall_mem_append, List.map_cons]
    by_cases last : rest = []
    · rw [last, List.map_nil, List.intercalate_singleton]
      exact ⟨each.1 before after, List.forall_mem_nil _⟩
    · have more : rest.map text ≠ [] := by simpa using last
      have later := ih each.2 (before ++ item.text ++ [','])
      simp only [List.length_append, List.length_singleton] at later
      have here := each.1 before ([','] ++ [','].intercalate (rest.map text) ++ after)
      rw [List.intercalate_cons_of_ne_nil more]
      simp only [List.append_assoc] at here later ⊢
      exact ⟨here, later⟩

theorem Sound.call {items : List Outline} (each : ∀ item ∈ items, item.Sound)
    (keyword : List Char) (nested : Bool) : (call keyword nested items).Sound := by
  intro before after p hp
  rcases List.mem_cons.mp hp with rfl | inner
  · exact ⟨before, after, rfl, rfl⟩
  · have stands := stands_from each (before ++ keyword ++ ['(']) ([')'] ++ after)
    simp only [List.length_append, List.length_singleton] at stands
    have own := stands p inner
    simp only [List.append_assoc] at own
    simp only [Outline.call, List.append_assoc, List.cons_append, List.nil_append]
    exact own

theorem sound_literal (l : Literal) : (literal l).Sound := by
  intro _ _ p hp
  cases hp

end Outline

theorem Constraint.sound_outline {c : Category} (tree : Constraint c) : tree.outline.Sound := by
  induction tree using induct with
  | node kind arguments children ih =>
    rw [outline_node]
    apply Outline.Sound.call
    rw [List.forall_mem_append, List.forall_mem_map, List.forall_mem_map]
    exact ⟨fun l _ => Outline.sound_literal l, ih⟩

theorem Query.sound_outline (q : Query) : q.outline.Sound := by
  apply Outline.Sound.call
  rw [List.forall_mem_map]
  exact fun any _ => any.constraint.sound_outline

/-! ### Rows -/

/-- Line breaks between two offsets of a text, with their depths. They stand before the items
that start at given offsets, and wherever the passages between the offsets break. Each is as
deep as there are lists of these passages open, beyond the depth of the row. -/
structure Row (lower upper depth : Nat) (starts : List Nat) (cuts : List (Nat × Nat))
    (passages : List Passage) : Prop where
  passages_within : ∀ p ∈ passages, lower ≤ p.start ∧ p.closing < upper
  cuts_within : ∀ cut ∈ cuts, lower ≤ cut.1 ∧ cut.1 < upper
  increasing : (cuts.map Prod.fst).Pairwise (· < ·)
  depths : ∀ cut ∈ cuts, cut.2 = depth + passages.countP (·.isOpenAt cut.1)
  exact : ∀ offset, offset ∈ cuts.map Prod.fst ↔
    offset ∈ starts ∨ ∃ p ∈ passages, p.BreaksAt offset
  whole : ∀ p ∈ passages, p.nested = false →
    ∀ cut ∈ cuts, ¬(p.start < cut.1 ∧ cut.1 ≤ p.closing)

namespace Row

variable {lower middle middle' upper depth : Nat} {starts starts' : List Nat}
  {cuts cuts' : List (Nat × Nat)} {passages passages' : List Passage}

theorem countP_eq_zero {offset : Nat} (h : ∀ p ∈ passages, offset ≤ p.start ∨ p.closing ≤ offset) :
    passages.countP (·.isOpenAt offset) = 0 := by
  rw [List.countP_eq_zero]
  intro p hp isOpen
  have inside := of_decide_eq_true (Bool.and_eq_true_iff.mp isOpen).2
  have := p.start_le_opening
  rcases h p hp with before | after <;> omega

theorem nil : Row lower upper depth [] [] [] := by
  constructor <;> simp

/-- A row, and then another one. -/
theorem append (h : Row lower middle depth starts cuts passages)
    (h' : Row middle' upper depth starts' cuts' passages') (le : middle ≤ middle')
    (lower_le : lower ≤ middle') (le_upper : middle ≤ upper) :
    Row lower upper depth (starts ++ starts') (cuts ++ cuts') (passages ++ passages') where
  passages_within := by
    rw [List.forall_mem_append]
    constructor
    · intro p hp
      have := h.passages_within p hp
      omega
    · intro p hp
      have := h'.passages_within p hp
      omega
  cuts_within := by
    rw [List.forall_mem_append]
    constructor
    · intro cut hcut
      have := h.cuts_within cut hcut
      omega
    · intro cut hcut
      have := h'.cuts_within cut hcut
      omega
  increasing := by
    rw [List.map_append, List.pairwise_append]
    refine ⟨h.increasing, h'.increasing, ?_⟩
    rw [List.forall_mem_map]
    intro cut hcut
    rw [List.forall_mem_map]
    intro cut' hcut'
    have := h.cuts_within cut hcut
    have := h'.cuts_within cut' hcut'
    omega
  depths := by
    -- No passage of one row is open where the line is broken in the other.
    rw [List.forall_mem_append]
    constructor
    · intro cut hcut
      have others : passages'.countP (·.isOpenAt cut.1) = 0 := by
        apply countP_eq_zero
        intro p hp
        have := h.cuts_within cut hcut
        have := h'.passages_within p hp
        omega
      rw [List.countP_append, others, Nat.add_zero, h.depths cut hcut]
    · intro cut hcut
      have others : passages.countP (·.isOpenAt cut.1) = 0 := by
        apply countP_eq_zero
        intro p hp
        have := h.passages_within p hp
        have := h'.cuts_within cut hcut
        omega
      rw [List.countP_append, others, Nat.zero_add, h'.depths cut hcut]
  exact := by
    intro offset
    rw [List.map_append, List.mem_append, h.exact, h'.exact, List.mem_append]
    simp only [List.mem_append, or_and_right, exists_or]
    exact or_or_or_comm
  whole := by
    rw [List.forall_mem_append]
    constructor
    · intro p hp flat
      rw [List.forall_mem_append]
      refine ⟨h.whole p hp flat, ?_⟩
      intro cut hcut
      have := h.passages_within p hp
      have := h'.cuts_within cut hcut
      omega
    · intro p hp flat
      rw [List.forall_mem_append]
      refine ⟨?_, h'.whole p hp flat⟩
      intro cut hcut
      have := h.cuts_within cut hcut
      have := h'.passages_within p hp
      omega

/-- A line break before an item. -/
theorem item (h : Row lower upper depth [] cuts passages) (lt : lower < upper)
    (inside : ∀ cut ∈ cuts, lower < cut.1) :
    Row lower upper depth [lower] ((lower, depth) :: cuts) passages where
  passages_within := h.passages_within
  cuts_within := List.forall_mem_cons.mpr ⟨⟨le_rfl, lt⟩, h.cuts_within⟩
  increasing := by
    rw [List.map_cons, List.pairwise_cons, List.forall_mem_map]
    exact ⟨inside, h.increasing⟩
  depths := by
    rw [List.forall_mem_cons]
    refine ⟨?_, h.depths⟩
    rw [countP_eq_zero fun p hp => .inl (h.passages_within p hp).1, Nat.add_zero]
  exact := by
    intro offset
    rw [List.map_cons, List.mem_cons, h.exact, List.mem_singleton]
    simp
  whole := by
    intro p hp flat
    rw [List.forall_mem_cons]
    refine ⟨?_, h.whole p hp flat⟩
    have := h.passages_within p hp
    dsimp only
    omega

/-- A list in brackets that is written in one piece. -/
theorem flat {own : Passage} (flat : own.nested = false) :
    Row own.start (own.closing + 1) depth [] [] [own] where
  passages_within := List.forall_mem_singleton.mpr ⟨le_rfl, Nat.lt_succ_self _⟩
  cuts_within := List.forall_mem_nil _
  increasing := .nil
  depths := List.forall_mem_nil _
  exact := by simp [Passage.BreaksAt, flat]
  whole := by simp

/-- A row in brackets, with a line break before the closing one. -/
theorem nested {own : Passage} (nested : own.nested = true)
    (h : Row (own.opening + 1) own.closing (depth + 1) own.itemStarts cuts passages) :
    Row own.start (own.closing + 1) depth [] (cuts ++ [(own.closing, depth)])
      (own :: passages) where
  passages_within := by
    rw [List.forall_mem_cons]
    refine ⟨⟨le_rfl, Nat.lt_succ_self _⟩, ?_⟩
    intro p hp
    have := h.passages_within p hp
    have := own.start_le_opening
    omega
  cuts_within := by
    rw [List.forall_mem_append, List.forall_mem_singleton]
    constructor
    · intro cut hcut
      have := h.cuts_within cut hcut
      have := own.start_le_opening
      omega
    · have := own.start_le_opening
      have := own.opening_lt_closing
      dsimp only
      omega
  increasing := by
    rw [List.map_append, List.pairwise_append, List.forall_mem_map]
    refine ⟨h.increasing, List.pairwise_singleton _ _, ?_⟩
    intro cut hcut
    exact List.forall_mem_singleton.mpr (h.cuts_within cut hcut).2
  depths := by
    -- Inside one more list is open; at its closing bracket it is open no longer.
    rw [List.forall_mem_append, List.forall_mem_singleton]
    constructor
    · intro cut hcut
      have isOpen : own.isOpenAt cut.1 = true := by
        have := h.cuts_within cut hcut
        rw [Passage.isOpenAt, nested, Bool.true_and, decide_eq_true_eq]
        omega
      rw [List.countP_cons, if_pos isOpen, h.depths cut hcut]
      omega
    · have closed : own.isOpenAt own.closing = false := by simp [Passage.isOpenAt]
      have others : passages.countP (·.isOpenAt own.closing) = 0 :=
        countP_eq_zero fun p hp => .inr (h.passages_within p hp).2.le
      rw [List.countP_cons, if_neg (by simp [closed]), others]
      rfl
  exact := by
    intro offset
    rw [List.map_append, List.mem_append, h.exact, List.map_singleton, List.mem_singleton]
    simp only [List.not_mem_nil, false_or, List.mem_cons, exists_eq_or_imp, Passage.BreaksAt,
      nested, true_and]
    exact or_right_comm
  whole := by
    rw [List.forall_mem_cons]
    constructor
    · intro flat
      rw [nested] at flat
      cases flat
    · intro p hp flat
      rw [List.forall_mem_append, List.forall_mem_singleton]
      refine ⟨h.whole p hp flat, ?_⟩
      have := h.passages_within p hp
      dsimp only
      omega

end Row
end CatalogQuery
