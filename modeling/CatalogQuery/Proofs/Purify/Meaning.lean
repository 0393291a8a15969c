import CatalogQuery.Proofs.Constraint.Applicable
import CatalogQuery.Proofs.Parse.Soundness
import CatalogQuery.Proofs.Purify.Steps
import CatalogQuery.Proofs.Query.Stored

/-!
# What purification keeps

Without hooks two steps of purification are left: a node that is not applicable is dropped,
and a junction of a single child gives way to the child. What fits a shape is applicable, so
of a tree that fits at every node nothing is dropped. Then every reading of constraints in
which a junction of a single child says what the child says finds the same value in the
purified tree.
-/

namespace CatalogQuery

universe u

variable {c : Category}

/-- Whether constraints of the kind join others: one that joins a single constraint says
what that says. -/
def Kind.joins : Kind c → Bool
  | .and | .or | .userFilter => true
  | _ => false

theorem Kind.isCollapsible_eq_joins (kind : Kind c) : kind.isCollapsible = kind.joins := by
  cases kind <;> rfl

namespace Constraint

/-- A reading of constraints gives a value to a kind with arguments and the values of the
children. -/
abbrev Reading (c : Category) (V : Type u) := Kind c → List Literal → List V → V

variable {V : Type u} (m : Reading c V)

mutual

/-- The value of a tree under a reading. -/
def evaluate : Constraint c → V
  | .node kind arguments children => m kind arguments (evaluateAll children)

def evaluateAll : List (Constraint c) → List V
  | [] => []
  | first :: rest => evaluate first :: evaluateAll rest

end

theorem evaluate_node (kind : Kind c) (arguments : List Literal) (children : List (Constraint c)) :
    evaluate m (.node kind arguments children) = m kind arguments (children.map (evaluate m)) := by
  have values : evaluateAll m children = children.map (evaluate m) := by
    induction children with
    | nil => rfl
    | cons child children ih => rw [evaluateAll, ih, List.map_cons]
  rw [evaluate, values]

/-- A reading in which `and`, `or` and `userFilter` of a single child, and of nothing else,
say what the child says. -/
def Reading.Joins : Prop :=
  ∀ kind : Kind c, kind.joins = true → ∀ child,
    evaluate m (.node kind [] [child]) = evaluate m child

variable {m}

theorem evaluate_soleChild? (joins : Reading.Joins m) {tree child : Constraint c}
    (h : tree.soleChild? = some child) : evaluate m child = evaluate m tree := by
  obtain ⟨kind, collapsible, rfl⟩ := soleChild?_eq_some h
  rw [Kind.isCollapsible_eq_joins] at collapsible
  exact (joins kind collapsible child).symm

/-- Whether a node is applicable does not depend on what its children are. -/
theorem isApplicable_of_length {kind : Kind c} {arguments : List Literal}
    {children others : List (Constraint c)} (same : others.length = children.length)
    (h : isApplicable (.node kind arguments children) = true) :
    isApplicable (.node kind arguments others) = true := by
  have empty : others.isEmpty = children.isEmpty := by
    rw [Bool.eq_iff_iff, List.isEmpty_iff, List.isEmpty_iff, ← List.length_eq_zero_iff, same,
      List.length_eq_zero_iff]
  have unchanged : isApplicable (.node kind arguments others) =
      isApplicable (.node kind arguments children) :=
    congrArg (fun none => decide (kind.requiredArguments ≤ arguments.length) &&
      !(kind.requiresChildren && none)) empty
  exact unchanged.trans h

end Constraint

namespace Purifier

open Constraint (evaluate evaluate_node Reading)

variable {V : Type u} {m : Reading c V} (collapse : Bool)

/-- An applicable node is settled to something of its value. -/
theorem settled_keeps (joins : Reading.Joins m) (p : Purifier c) {node : Constraint c}
    (applicable : node.isApplicable = true) :
    ∃ left, p.settled node = some left ∧ evaluate m left = evaluate m node := by
  rw [settled, if_pos applicable]
  refine ⟨_, rfl, ?_⟩
  split
  · cases sole : node.soleChild? with
    | none => rfl
    | some child => exact Constraint.evaluate_soleChild? joins sole
  · rfl

/-- Purification keeps the values of trees if it keeps that of each. -/
theorem map_evaluate_filterMap {p : Purifier c} {trees : List (Constraint c)}
    (h : ∀ tree ∈ trees, ∃ left, p.purify tree = some left ∧
      evaluate m left = evaluate m tree) :
    (trees.filterMap p.purify).map (evaluate m) = trees.map (evaluate m) := by
  induction trees with
  | nil => rfl
  | cons tree trees ih =>
    obtain ⟨left, purified, value⟩ := h tree List.mem_cons_self
    have rest := ih fun other ho => h other (List.mem_cons_of_mem _ ho)
    rw [List.filterMap_cons_some purified, List.map_cons, List.map_cons, value, rest]

/-- Of a tree that fits at every node something of its value is left. -/
theorem purify_keeps (joins : Reading.Joins m) (tree : Constraint c)
    (fits : tree.fits = true) : ∃ left, purify ⟨collapse, none⟩ tree = some left ∧
      evaluate m left = evaluate m tree := by
  induction tree using Constraint.induct with
  | node kind arguments children ih =>
    rw [Constraint.fits_node, Bool.and_eq_true, List.all_eq_true] at fits
    obtain ⟨own, below⟩ := fits
    have kept := map_evaluate_filterMap fun child hc => ih child hc (below child hc)
    have applicable := Constraint.isApplicable_of_fits own
    rw [purify_node]
    -- Without a hook the node with its purified children is what has to be settled.
    change ∃ left, settled ⟨collapse, none⟩ (renewed ⟨collapse, none⟩ _) = some left ∧ _
    unfold renewed
    split
    · have same := congrArg List.length kept
      rw [List.length_map, List.length_map] at same
      obtain ⟨left, settled, value⟩ := settled_keeps joins ⟨collapse, none⟩
        (Constraint.isApplicable_of_length same applicable)
      refine ⟨left, settled, ?_⟩
      rw [value, evaluate_node, evaluate_node, kept]
    · exact settled_keeps joins ⟨collapse, none⟩ applicable

/-- Without collapse a tree that fits at every node stays as it is. -/
theorem outcome_of_fits (tree : Constraint c) (fits : tree.fits = true) :
    outcome ⟨false, none⟩ tree = .unchanged := by
  induction tree using Constraint.induct with
  | node kind arguments children ih =>
    rw [Constraint.fits_node, Bool.and_eq_true, List.all_eq_true] at fits
    obtain ⟨own, below⟩ := fits
    have quiet : (outcomes ⟨false, none⟩ children).all Outcome.isUnchanged = true := by
      rw [outcomes_eq, List.all_map, List.all_eq_true]
      intro child hc
      rw [Function.comp_apply, ih child hc (below child hc)]
      rfl
    have same : renew (.node kind arguments children) (outcomes ⟨false, none⟩ children) =
        (.node kind arguments children, false) := by
      rw [renew, quiet, Bool.not_true, Bool.and_false]
      rfl
    rw [outcome, same]
    change settle ⟨false, none⟩ (.node kind arguments children) false = .unchanged
    rw [settle_of_applicable _ (Constraint.isApplicable_of_fits own)]
    rfl

end Purifier

/-- Trees that fit at every node, by where they come from. -/
inductive Constraint.WellFormed (tree : Constraint c) : Prop
  | built (fits : tree.fits = true)
  | parsed (text : List Char) (h : parseConstraintAs c text = .ok tree)
  | parsedPart (text : List Char) (q : Query) (h : parseQuery text = .ok q)
      (part : tree.toAny ∈ q.parts)
  | stored (json : Json) (h : Constraint.ofJson json = .ok tree)
  | storedPart (json : Json) (q : Query) (h : Query.ofJson json = .ok q)
      (part : tree.toAny ∈ q.parts)

theorem parse_of_parseConstraintAs {text : List Char} {tree : Constraint c}
    (h : parseConstraintAs c text = .ok tree) : parse text = .ok (.constraint tree.toAny) := by
  obtain ⟨any, hany, h⟩ := Outcome.bind_eq_ok.mp h
  obtain ⟨v, hv, hany⟩ := Outcome.bind_eq_ok.mp hany
  cases v with
  | constraint node =>
    cases hany
    split at h
    · rename_i own same
      cases h
      rw [hv, Constraint.as?_eq_some same]
    · cases h
  | _ => cases hany

theorem parse_of_parseQuery {text : List Char} {q : Query} (h : parseQuery text = .ok q) :
    parse text = .ok (.query q) := by
  obtain ⟨v, hv, h⟩ := Outcome.bind_eq_ok.mp h
  cases v with
  | query own =>
    cases h
    exact hv
  | _ => cases h

/-- Parsed and stored trees fit at every node. -/
theorem Constraint.WellFormed.fits {tree : Constraint c} (h : tree.WellFormed) :
    tree.fits = true := by
  have ofPart {q : Query} (fits : q.fits = true) (part : tree.toAny ∈ q.parts) :
      tree.fits = true :=
    List.all_eq_true.mp fits _ part
  cases h with
  | built fits => exact fits
  | parsed text h => exact (Parsed.sound_of_parse (parse_of_parseConstraintAs h)).2
  | parsedPart text q h part =>
    have sound := (Parsed.sound_of_parse (parse_of_parseQuery h)).2
    exact ofPart (Bool.and_eq_true_iff.mp sound).1 part
  | stored json h => exact Constraint.fits_of_ofJson json h
  | storedPart json q h part => exact ofPart (Query.fits_of_ofJson h).1 part

/-- **Purification without hooks preserves the value of a well-formed tree and drops
nothing**, under every reading in which an `and`, `or` or `userFilter` of a single child and
without arguments says what the child says. Without collapse the tree stays as it is. -/
theorem plain_purify_preserves_value {V : Type u} {m : Constraint.Reading c V}
    (joins : m.Joins) {tree : Constraint c} (wellFormed : tree.WellFormed) :
    (∀ collapse, ∃ left, ((QueryPurifier.plain collapse).on c).purify tree = some left ∧
        left.evaluate m = tree.evaluate m) ∧
      ((QueryPurifier.plain false).on c).outcome tree = .unchanged := by
  constructor
  · intro collapse
    rw [QueryPurifier.on_plain]
    exact Purifier.purify_keeps collapse joins tree wellFormed.fits
  · rw [QueryPurifier.on_plain]
    exact Purifier.outcome_of_fits tree wellFormed.fits

/-- The number of kinds in a tree other than those that join. -/
def Constraint.plainKinds : Constraint.Reading .filter Nat :=
  fun kind _ values => values.sum + if kind.joins then 0 else 1

/-- Two junctions around a negation of a junction. -/
def nestedJunctions : FilterConstraint :=
  .node .or [] [.node .userFilter [] [.node .not [] [.node .and [] [.node .directRelation [] []]]]]

theorem nestedJunctions_counted :
    (Purifier.purify ⟨true, none⟩ nestedJunctions).map (Constraint.evaluate Constraint.plainKinds) =
      some 2 := by
  have joins : Constraint.Reading.Joins Constraint.plainKinds := by
    intro kind joins child
    simp [Constraint.evaluate_node, Constraint.plainKinds, joins]
  have fits : nestedJunctions.fits = true := rfl
  obtain ⟨left, purified, value⟩ := (plain_purify_preserves_value joins (.built fits)).1 true
  have counted : nestedJunctions.evaluate Constraint.plainKinds = 2 := rfl
  rw [QueryPurifier.on_plain] at purified
  rw [purified, Option.map_some, value, counted]

end CatalogQuery
