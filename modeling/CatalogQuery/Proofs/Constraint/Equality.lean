import CatalogQuery.Proofs.Constraint.Normal
import CatalogQuery.Proofs.Literal.Equality

namespace CatalogQuery

variable {c : Category}

namespace Constraint

/-- What a constraint says: a kind with meanings and with what the constraints below it say. -/
inductive Meaning (c : Category)
  | node (kind : Kind c) (arguments : List CatalogQuery.Meaning) (children : List (Meaning c))

mutual

def meaning : Constraint c → Meaning c
  | .node kind arguments children => .node kind (arguments.map Literal.meaning) (meanings children)

def meanings : List (Constraint c) → List (Meaning c)
  | [] => []
  | first :: rest => meaning first :: meanings rest

end

theorem meanings_eq (trees : List (Constraint c)) : meanings trees = trees.map meaning := by
  induction trees with
  | nil => rfl
  | cons tree trees ih => rw [meanings, ih, List.map_cons]

/-- Nodes are equal if their kinds, their literals and their children are. -/
theorem equal_node_iff {kind kind' : Kind c} {arguments arguments' : List Literal}
    {children children' : List (Constraint c)} :
    equal (.node kind arguments children) (.node kind' arguments' children') = true ↔
      kind = kind' ∧ List.Forall₂ (fun l l' => l.equal l' = true) arguments arguments' ∧
        List.Forall₂ (fun a b => a.equal b = true) children children' := by
  simp only [equal, Bool.and_eq_true, beq_iff_eq, Literal.equalAll_iff, equalAll_iff, and_assoc]

theorem equal_iff {a b : Constraint c} : a.equal b = true ↔ a.kind = b.kind ∧
    List.Forall₂ (fun l l' => l.equal l' = true) a.arguments b.arguments ∧
    List.Forall₂ (fun x y => x.equal y = true) a.children b.children := by
  cases a
  cases b
  exact equal_node_iff

/-- **Constraints are equal exactly if they mean the same.** -/
theorem equal_iff_meaning (a b : Constraint c) : a.equal b = true ↔ a.meaning = b.meaning := by
  induction a using induct generalizing b with
  | node kind arguments children ih =>
    cases b with
    | node kind' arguments' children' =>
      have literals : List.Forall₂ (fun l l' => l.equal l' = true) arguments arguments' ↔
          arguments.map Literal.meaning = arguments'.map Literal.meaning :=
        forall₂_iff_map_eq fun l _ => l.equal_iff_meaning
      simp only [equal_node_iff, meaning, meanings_eq, Meaning.node.injEq, literals,
        forall₂_iff_map_eq ih]

theorem equivalence_equal : Equivalence fun a b : Constraint c => a.equal b = true :=
  equivalence_of_iff equal_iff_meaning

theorem equal?_iff_meaning (a b : Option (Constraint c)) :
    equal? a b = true ↔ a.map meaning = b.map meaning := by
  cases a <;> cases b <;> simp [equal?, equal_iff_meaning]

end Constraint

namespace AnyConstraint

def meaning (any : AnyConstraint) : (c : Category) × Constraint.Meaning c :=
  ⟨any.category, any.constraint.meaning⟩

theorem equal_iff_meaning (a b : AnyConstraint) : a.equal b = true ↔ a.meaning = b.meaning := by
  obtain ⟨c, tree⟩ := a
  obtain ⟨c', tree'⟩ := b
  by_cases same : c' = c
  · subst same
    simp [equal, meaning, Constraint.equal_iff_meaning]
  · simp [equal, meaning, as?, same, Ne.symm same]

theorem equivalence_equal : Equivalence fun a b : AnyConstraint => a.equal b = true :=
  equivalence_of_iff equal_iff_meaning

end AnyConstraint
end CatalogQuery
