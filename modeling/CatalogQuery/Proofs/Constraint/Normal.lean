import CatalogQuery.Proofs.Literal.Normal
import CatalogQuery.Render
import CatalogQuery.Search

namespace CatalogQuery.Constraint

variable {c : Category}

/-- A constraint is a kind with literals and constraints below it. -/
@[elab_as_elim]
theorem induct {motive : Constraint c → Prop}
    (node : ∀ kind arguments children, (∀ child ∈ children, motive child) →
      motive (.node kind arguments children)) (tree : Constraint c) : motive tree := by
  cases tree with
  | node kind arguments children =>
    exact node kind arguments children fun child _ => induct node child
termination_by tree

/-- A constraint and all constraints below it, in the order in which they are written. -/
def nodes (tree : Constraint c) : List (Constraint c) := tree.preorder everywhere

theorem preorderAll_eq (trees : List (Constraint c)) :
    preorderAll everywhere trees = trees.flatMap nodes := by
  induction trees with
  | nil => rfl
  | cons tree trees ih => rw [preorderAll, ih, List.flatMap_cons, nodes]

theorem nodes_node (kind : Kind c) (arguments : List Literal) (children : List (Constraint c)) :
    nodes (.node kind arguments children) =
      .node kind arguments children :: children.flatMap nodes := by
  rw [nodes, preorder, preorderAll_eq]
  rfl

/-- Whether all zoned date-times below a constraint show years of four digits. -/
def readable (tree : Constraint c) : Bool := tree.nodes.all (·.arguments.all Literal.readable)

/-- Whether a constraint and all constraints below it fit a shape of their kinds. -/
def fits (tree : Constraint c) : Bool := tree.nodes.all fitsKind

/-- The number of negative zeros below a constraint. -/
def negativeZeros (tree : Constraint c) : Nat :=
  (tree.nodes.map fun node => (node.arguments.map Literal.negativeZeros).sum).sum

mutual

/-- The constraint that the text of a constraint says. -/
def normal : Constraint c → Constraint c
  | .node kind arguments children => .node kind (arguments.map Literal.normal) (normalAll children)

def normalAll : List (Constraint c) → List (Constraint c)
  | [] => []
  | first :: rest => normal first :: normalAll rest

end

variable (kind : Kind c) (arguments : List Literal) (children : List (Constraint c))

theorem readable_node : readable (.node kind arguments children) =
    (arguments.all Literal.readable && children.all readable) := by
  rw [readable, nodes_node, List.all_cons, List.all_flatMap]
  rfl

theorem fits_node : fits (.node kind arguments children) =
    (fitsKind (.node kind arguments children) && children.all fits) := by
  rw [fits, nodes_node, List.all_cons, List.all_flatMap]
  rfl

theorem negativeZeros_node : negativeZeros (.node kind arguments children) =
    (arguments.map Literal.negativeZeros).sum + (children.map negativeZeros).sum := by
  have below : ((children.flatMap nodes).map fun node =>
      (node.arguments.map Literal.negativeZeros).sum).sum = (children.map negativeZeros).sum := by
    induction children with
    | nil => rfl
    | cons child children ih =>
      rw [List.flatMap_cons, List.map_append, List.sum_append, ih]
      rfl
  rw [negativeZeros, nodes_node, List.map_cons, List.sum_cons, below]
  rfl

theorem normalAll_eq : normalAll children = children.map normal := by
  induction children with
  | nil => rfl
  | cons child children ih => rw [normalAll, ih, List.map_cons]

theorem normal_node : normal (.node kind arguments children) =
    .node kind (arguments.map Literal.normal) (children.map normal) := by
  rw [normal, normalAll_eq]

@[simp] theorem kind_normal (tree : Constraint c) : tree.normal.kind = tree.kind := by
  cases tree
  rfl

theorem equalAll_iff {trees trees' : List (Constraint c)} :
    equalAll trees trees' = true ↔ List.Forall₂ (fun a b => a.equal b = true) trees trees' := by
  induction trees generalizing trees' with
  | nil => cases trees' <;> simp [equalAll]
  | cons tree trees ih => cases trees' <;> simp [equalAll, ih]

theorem equalAll_map {f : Constraint c → Constraint c} {trees : List (Constraint c)}
    (h : ∀ tree ∈ trees, tree.equal (f tree) = true) : equalAll trees (trees.map f) = true := by
  rw [equalAll_iff, List.forall₂_map_right_iff, List.forall₂_same]
  exact h

/-- **A constraint is what its text says**, up to the forms of its literals. -/
theorem equal_normal (tree : Constraint c) : tree.equal tree.normal = true := by
  induction tree using induct with
  | node kind arguments children ih =>
    have literals : Literal.equalAll arguments (arguments.map Literal.normal) = true :=
      Literal.equalAll_map fun l _ => l.equal_normal
    rw [normal_node, equal, literals, equalAll_map ih, beq_self_eq_true]
    rfl

/-! ### The text -/

theorem renderAll_eq (layout : Layout) (depth : Nat) (trees : List (Constraint c)) :
    renderAll layout depth trees = trees.map (render layout depth) := by
  induction trees with
  | nil => rfl
  | cons tree trees ih => rw [renderAll, ih, List.map_cons]

theorem render_leaf (layout : Layout) (depth : Nat) :
    render layout depth (.node kind arguments []) =
      kind.keyword.toList ++ Layout.flat (arguments.map Literal.text) := by
  rw [render]

theorem render_container (layout : Layout) (depth : Nat) {children : List (Constraint c)}
    (h : children ≠ []) : render layout depth (.node kind arguments children) =
      kind.keyword.toList ++ layout.nested depth
        (arguments.map Literal.text ++ children.map (render layout (depth + 1))) := by
  cases children with
  | nil => exact absurd rfl h
  | cons child rest => rw [render, renderAll_eq, List.map_cons]

theorem nested_compact (depth : Nat) (items : List (List Char)) :
    Layout.compact.nested depth items = Layout.flat items := by
  simp [Layout.nested, Layout.compact, Layout.flat]

theorem render_compact_node (depth : Nat) :
    render .compact depth (.node kind arguments children) = kind.keyword.toList ++
      Layout.flat (arguments.map Literal.text ++ children.map (render .compact (depth + 1))) := by
  by_cases h : children = []
  · rw [h, render_leaf, List.map_nil, List.append_nil]
  · rw [render_container _ _ _ _ h, nested_compact]

theorem render_compact (tree : Constraint c) (depth : Nat) :
    tree.render .compact depth = tree.text := by
  induction tree using induct generalizing depth with
  | node kind arguments children ih =>
    have below (depth : Nat) : children.map (render .compact depth) = children.map text := by
      apply List.map_congr_left
      intro child hchild
      exact ih child hchild depth
    rw [text, render_compact_node, render_compact_node, below, below]

/-- The compact text of a constraint is its keyword with its arguments and children in
brackets. -/
theorem text_node : text (.node kind arguments children) =
    kind.keyword.toList ++ Layout.flat (arguments.map Literal.text ++ children.map text) := by
  have below : children.map (render .compact 1) = children.map text :=
    List.map_congr_left fun child _ => child.render_compact 1
  rw [text, render_compact_node, below]

/-! ### Stability of the text -/

theorem length_intercalate (separator : List Char) (texts : List (List Char)) :
    (separator.intercalate texts).length =
      (texts.map List.length).sum + separator.length * (texts.length - 1) := by
  induction texts with
  | nil => rfl
  | cons first rest ih =>
    by_cases last : rest = []
    · rw [last, List.intercalate_singleton]
      simp
    · obtain ⟨n, hn⟩ : ∃ n, rest.length = n + 1 :=
        Nat.exists_eq_succ_of_ne_zero (mt List.length_eq_zero_iff.mp last)
      rw [List.intercalate_cons_of_ne_nil last, List.length_append, List.length_append, ih,
        List.map_cons, List.sum_cons, List.length_cons, hn, Nat.add_sub_cancel,
        Nat.add_sub_cancel, Nat.mul_succ]
      omega

theorem length_flat (texts : List (List Char)) :
    (Layout.flat texts).length = (texts.map List.length).sum + (texts.length - 1) + 2 := by
  simp [Layout.flat, length_intercalate]

/-- A sum is larger by as much as its parts are. -/
theorem sum_map_add {α : Type} {size size' extra : α → Nat} {as : List α}
    (h : ∀ a ∈ as, size a = size' a + extra a) :
    (as.map size).sum = (as.map size').sum + (as.map extra).sum := by
  rw [List.map_congr_left h]
  exact List.sum_map_add

/-- Each sign of a zero that gets lost makes the text one character shorter. -/
theorem length_text (tree : Constraint c) :
    tree.text.length = tree.normal.text.length + tree.negativeZeros := by
  induction tree using induct with
  | node kind arguments children ih =>
    have literals := sum_map_add fun l (_ : l ∈ arguments) => l.length_text
    have below := sum_map_add ih
    simp only [normal_node, text_node, negativeZeros_node, List.length_append, length_flat,
      List.map_append, List.map_map, List.sum_append, List.length_map, Function.comp_def] at *
    omega

theorem text_normal {tree : Constraint c} (h : tree.negativeZeros = 0) :
    tree.normal.text = tree.text := by
  induction tree using induct with
  | node kind arguments children ih =>
    rw [negativeZeros_node, Nat.add_eq_zero_iff, List.sum_eq_zero_iff_forall_eq_nat,
      List.sum_eq_zero_iff_forall_eq_nat] at h
    have literals : (arguments.map Literal.normal).map Literal.text =
        arguments.map Literal.text := by
      rw [List.map_map]
      apply List.map_congr_left
      intro l hl
      exact Literal.text_normal (h.1 _ (List.mem_map_of_mem hl))
    have below : (children.map normal).map text = children.map text := by
      rw [List.map_map]
      apply List.map_congr_left
      intro child hc
      exact ih child hc (h.2 _ (List.mem_map_of_mem hc))
    rw [normal_node, text_node, text_node, literals, below]

/-- The text stays the same exactly if no sign of a zero gets lost. -/
theorem text_normal_iff (tree : Constraint c) :
    tree.normal.text = tree.text ↔ tree.negativeZeros = 0 :=
  eq_iff_nothing_extra tree.length_text text_normal

end CatalogQuery.Constraint
