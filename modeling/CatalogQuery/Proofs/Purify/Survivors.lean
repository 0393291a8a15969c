import CatalogQuery.Proofs.Purify.Meaning
import CatalogQuery.Proofs.Purify.Shapes
import Mathlib.Tactic.FinCases

/-!
# What survives purification

Without hooks a node vanishes if it lacks arguments, and takes all below it along; or if it
needs children and all of them have vanished, and then there is nothing below it to be lost.
A junction that gives way to its only child loses nothing either. So a leaf survives exactly
if neither it nor any node above it lacks arguments, and survivors keep their order.
-/

namespace CatalogQuery

variable {c : Category}

namespace Constraint

/-- Whether a node holds as many arguments as its kind needs. -/
def hasArguments (node : Constraint c) : Bool :=
  node.kind.requiredArguments ≤ node.arguments.length

/-- The nodes of a tree whose kinds hold no constraints, in the order in which they are
written. -/
def leaves (tree : Constraint c) : List (Constraint c) := tree.nodes.filter (!·.isContainer)

/-- No leaf of a tree has children. -/
def LeavesBare (tree : Constraint c) : Prop := ∀ node ∈ tree.leaves, node.children = []

mutual

/-- The nodes of a tree in the order in which they are written, each with the nodes above it
from the nearest on, of which the last ones are given. -/
def lineage (above : List (Constraint c)) :
    Constraint c → List (Constraint c × List (Constraint c))
  | .node kind arguments children =>
    (.node kind arguments children, above)
      :: lineageAll (.node kind arguments children :: above) children

def lineageAll (above : List (Constraint c)) :
    List (Constraint c) → List (Constraint c × List (Constraint c))
  | [] => []
  | first :: rest => lineage above first ++ lineageAll above rest

end

/-- The leaves of a tree that hold the arguments they need and stand below nodes that all do. -/
def surviving (above : List (Constraint c)) (tree : Constraint c) : List (Constraint c) :=
  ((tree.lineage above).filter fun (own, above) =>
    !own.isContainer && (own :: above).all hasArguments).map Prod.fst

variable (kind : Kind c) (arguments : List Literal) (children : List (Constraint c))

theorem leaves_node : leaves (.node kind arguments children) =
    (if kind.isContainer then [] else [.node kind arguments children])
      ++ children.flatMap leaves := by
  have below : (children.flatMap nodes).filter (fun node => !node.isContainer) =
      children.flatMap leaves := List.filter_flatMap
  rw [leaves, nodes_node, List.filter_cons, below, isContainer, Constraint.kind]
  cases kind.isContainer <;> rfl

theorem lineageAll_eq (above : List (Constraint c)) :
    lineageAll above children = children.flatMap (lineage above) := by
  induction children with
  | nil => rfl
  | cons child children ih => rw [lineageAll, ih, List.flatMap_cons]

/-- The nodes with a lineage are all nodes of the tree. -/
theorem map_lineage (tree : Constraint c) (above : List (Constraint c)) :
    (tree.lineage above).map Prod.fst = tree.nodes := by
  induction tree using induct generalizing above with
  | node kind arguments children ih =>
    rw [lineage, lineageAll_eq, nodes_node, List.map_cons, List.map_flatMap]
    congr 1
    apply List.flatMap_congr
    intro child hc
    exact ih child hc _

/-- What survives are leaves of the tree, in their order. -/
theorem surviving_sublist (tree : Constraint c) (above : List (Constraint c)) :
    (surviving above tree).Sublist tree.leaves := by
  rw [leaves, ← map_lineage tree above, List.filter_map]
  refine (List.monotone_filter_right _ ?_).map Prod.fst
  intro (own, above) survives
  exact (Bool.and_eq_true_iff.mp survives).1

theorem surviving_node (above : List (Constraint c)) :
    surviving above (.node kind arguments children) =
      (if !kind.isContainer && (.node kind arguments children :: above).all hasArguments then
        [.node kind arguments children] else [])
      ++ children.flatMap (surviving (.node kind arguments children :: above)) := by
  rw [surviving, lineage, lineageAll_eq, List.filter_cons, List.filter_flatMap,
    apply_ite (List.map _), List.map_cons, List.map_flatMap]
  change (if (!kind.isContainer && _) = true then _ else _) = _
  split <;> rfl

/-- Whether a leaf survives is decided by all nodes above it. -/
theorem surviving_eq (tree : Constraint c) (above : List (Constraint c)) :
    surviving above tree = if above.all hasArguments then surviving [] tree else [] := by
  induction tree using induct generalizing above with
  | node kind arguments children ih =>
    have below (above : List (Constraint c)) : children.flatMap (surviving above) =
        if above.all hasArguments then children.flatMap (surviving []) else [] := by
      rw [List.flatMap_congr fun child hc => ih child hc above]
      split
      · rfl
      · exact List.flatMap_eq_nil_iff.mpr fun _ _ => rfl
    rw [surviving_node, surviving_node, below (_ :: above), below [_], List.all_cons, List.all_cons]
    generalize hasArguments (.node kind arguments children) = own
    generalize above.all hasArguments = others
    cases own <;> cases others <;> simp

/-- A leaf survives if it holds its arguments; other nodes that do leave what survives below. -/
theorem surviving_cons : surviving [] (.node kind arguments children) =
    if hasArguments (.node kind arguments children) then
      (if kind.isContainer then [] else [.node kind arguments children])
        ++ children.flatMap (surviving [])
    else [] := by
  have below (child : Constraint c) : surviving [.node kind arguments children] child =
      if hasArguments (.node kind arguments children) then surviving [] child else [] := by
    rw [surviving_eq, List.all_cons, List.all_nil, Bool.and_true]
  rw [surviving_node, List.all_cons, List.all_nil, Bool.and_true,
    List.flatMap_congr fun child _ => below child]
  generalize hasArguments (.node kind arguments children) = own
  cases own <;> cases kind.isContainer <;> simp

end Constraint

namespace Constraint.LeavesBare

variable {kind : Kind c} {arguments : List Literal} {children : List (Constraint c)}

theorem below (h : LeavesBare (.node kind arguments children)) :
    ∀ child ∈ children, child.LeavesBare := by
  intro child hc node found
  apply h
  rw [leaves_node]
  exact List.mem_append_right _ (List.mem_flatMap.mpr ⟨child, hc, found⟩)

theorem children_eq_nil (h : LeavesBare (.node kind arguments children))
    (leaf : kind.isContainer = false) : children = [] := by
  refine h (.node kind arguments children) ?_
  rw [leaves_node, leaf]
  exact List.mem_cons_self

end Constraint.LeavesBare

/-- A node below which no leaf has children, and which is no leaf with children itself. -/
theorem Constraint.leavesBare_node {kind : Kind c} {arguments : List Literal}
    {children : List (Constraint c)} (sort : kind.isContainer = true ∨ children = [])
    (below : ∀ child ∈ children, child.LeavesBare) :
    LeavesBare (.node kind arguments children) := by
  intro node found
  rw [leaves_node, List.mem_append] at found
  rcases found with own | found
  · rw [List.mem_ite_nil_left, List.mem_singleton] at own
    obtain ⟨leaf, rfl⟩ := own
    exact sort.resolve_left leaf
  · obtain ⟨child, hc, found⟩ := List.mem_flatMap.mp found
    exact below child hc node found

namespace Purifier

open Constraint (leaves leaves_node surviving surviving_cons hasArguments LeavesBare
  leavesBare_node)

section
variable (p : Purifier c) {kind : Kind c} (arguments : List Literal)

theorem isApplicable_eq (children : List (Constraint c)) :
    Constraint.isApplicable (.node kind arguments children) =
      (hasArguments (.node kind arguments children) &&
        !(kind.requiresChildren && children.isEmpty)) := rfl

/-- A leaf is left as it is if it holds its arguments. -/
theorem settled_leaf (leaf : kind.isContainer = false) :
    p.settled (.node kind arguments []) =
      if hasArguments (.node kind arguments []) then some (.node kind arguments []) else none := by
  have none : kind.requiresChildren = false := by
    cases kind <;> revert leaf <;> decide
  have whole : Constraint.soleChild? (.node kind arguments []) = .none := by
    cases arguments <;> rfl
  rw [settled, isApplicable_eq, none, Bool.false_and, Bool.not_false, Bool.and_true, whole,
    ite_self]
  rfl

/-- The leaves below a container are lost with it exactly if it lacks arguments. -/
theorem leaves_settled (container : kind.isContainer = true) (children : List (Constraint c)) :
    (p.settled (.node kind arguments children)).toList.flatMap leaves =
      if hasArguments (.node kind arguments children) then children.flatMap leaves else [] := by
  rw [settled, isApplicable_eq]
  by_cases own : hasArguments (.node kind arguments children) = true
  · rw [own, Bool.true_and, if_pos rfl]
    cases needed : kind.requiresChildren && children.isEmpty with
    | true =>
      -- All below the node has vanished before it.
      rw [Bool.and_eq_true, List.isEmpty_iff] at needed
      rw [needed.2]
      rfl
    | false =>
      rw [Bool.not_false, if_pos rfl, Option.toList_some, List.flatMap_singleton]
      cases inside : if p.collapse then Constraint.soleChild? (.node kind arguments children)
          else none with
      | some child =>
        obtain ⟨_, -, same⟩ :=
          Constraint.soleChild?_eq_some (Option.ite_none_right_eq_some.mp inside).2
        cases same
        exact (List.flatMap_singleton _ _).symm
      | none =>
        rw [Option.getD_none, leaves_node, container, if_pos rfl, List.nil_append]
  · rw [if_neg own, Bool.eq_false_iff.mpr own, Bool.false_and]
    rfl

end

/-- **What survives a purification without hooks** are the leaves that hold their arguments and
stand below nodes that all do. -/
theorem leaves_purify (collapse : Bool) {tree : Constraint c} (bare : tree.LeavesBare) :
    ((⟨collapse, none⟩ : Purifier c).purify tree).toList.flatMap leaves = surviving [] tree := by
  induction tree using Constraint.induct with
  | node kind arguments children ih =>
    have ruling (node : Constraint c) :
        (⟨collapse, none⟩ : Purifier c).ruled node = some node := rfl
    rw [purify_node, ruling, Option.bind_some, surviving_cons]
    cases container : kind.isContainer with
    | true =>
      have renewal : (⟨collapse, none⟩ : Purifier c).renewed (.node kind arguments children) =
          .node kind arguments (children.filterMap (⟨collapse, none⟩ : Purifier c).purify) :=
        if_pos container
      have below : (children.filterMap (⟨collapse, none⟩ : Purifier c).purify).flatMap leaves =
          children.flatMap (surviving []) := by
        rw [List.filterMap_eq_flatMap_toList, List.flatMap_assoc]
        apply List.flatMap_congr
        intro child hc
        exact ih child hc (bare.below child hc)
      rw [renewal, leaves_settled _ _ container, below]
      rfl
    | false =>
      have renewal : (⟨collapse, none⟩ : Purifier c).renewed (.node kind arguments children) =
          .node kind arguments children := if_neg (Bool.eq_false_iff.mp container)
      cases bare.children_eq_nil container
      rw [renewal, settled_leaf _ _ container, apply_ite Option.toList,
        apply_ite (List.flatMap leaves), Option.toList_some, List.flatMap_singleton, leaves_node,
        container]
      rfl

/-- Purification without hooks leaves no more to do. -/
theorem onlyRemoves_plain (collapse : Bool) : (⟨collapse, none⟩ : Purifier c).OnlyRemoves :=
  fun _ _ => nofun

theorem keeps_leavesBare {p : Purifier c} (removes : p.OnlyRemoves) :
    p.Keeps Constraint.LeavesBare where
  down tree bare := by
    cases tree
    exact bare.below
  up kind arguments children fewer bare below le _ := by
    refine leavesBare_node ?_ below
    cases container : kind.isContainer with
    | true => exact .inl rfl
    | false =>
      rw [bare.children_eq_nil container] at le
      exact .inr (List.eq_nil_of_length_eq_zero (Nat.le_zero.mp le))
  replaced node other ruling := absurd ruling (removes node other)

/-- At no node of a pure tree whose leaves are bare a step of purification applies. -/
theorem Pure.nodes {p : Purifier c} {tree : Constraint c} (h : p.Pure tree)
    (bare : tree.LeavesBare) : ∀ node ∈ tree.nodes, node.isApplicable = true ∧
      (p.collapse = true → node.soleChild? = none) := by
  induction tree using Constraint.induct with
  | node kind arguments children ih =>
    obtain ⟨-, applicable, whole, below⟩ := h
    rw [Constraint.nodes_node, List.forall_mem_cons]
    refine ⟨⟨applicable, whole⟩, ?_⟩
    intro node found
    obtain ⟨child, hc, found⟩ := List.mem_flatMap.mp found
    cases container : kind.isContainer with
    | true => exact ih child hc (below container child hc) (bare.below child hc) node found
    | false =>
      cases bare.children_eq_nil container
      cases hc

end Purifier

open Constraint in
/-- **What survives a purification without hooks is exactly determined.** In a tree whose leaves
are bare, a leaf survives exactly if it and all nodes above it hold the arguments they need;
survivors stay as they are and keep their order. In what is left of the tree each node is
applicable, and with collapse none joins a single constraint. -/
theorem leaves_survive_exactly (collapse : Bool) {tree : Constraint c} (bare : tree.LeavesBare) :
    let left := ((QueryPurifier.plain collapse).on c).purify tree
    left.toList.flatMap leaves =
      ((tree.lineage []).filter fun (own, above) =>
        !own.isContainer && (own :: above).all hasArguments).map Prod.fst ∧
    (left.toList.flatMap leaves).Sublist tree.leaves ∧
    ∀ tree' ∈ left, ∀ own ∈ tree'.nodes, own.isApplicable = true ∧
      (collapse = true → ¬(own.kind.joins = true ∧ own.arguments = [] ∧
        own.children.length = 1)) := by
  intro left
  have removes := Purifier.onlyRemoves_plain (c := c) collapse
  simp only [left, QueryPurifier.on_plain]
  have survivors := Purifier.leaves_purify collapse bare
  refine ⟨survivors, survivors ▸ surviving_sublist tree [], ?_⟩
  intro tree' purified own found
  have pure := Purifier.pure_of_purify removes purified
  have bare' := (Purifier.keeps_leavesBare removes).purify bare purified
  obtain ⟨applicable, whole⟩ := pure.nodes bare' own found
  refine ⟨applicable, ?_⟩
  rintro collapsed ⟨joins, none, single⟩
  obtain ⟨kind, arguments, children⟩ := own
  obtain ⟨child, same⟩ := List.length_eq_one_iff.mp single
  cases none
  cases same
  rw [← Kind.isCollapsible_eq_joins] at joins
  have sole : soleChild? (.node kind [] [child]) = some child := if_pos joins
  rw [whole collapsed] at sole
  cases sole

/-- A filter in which a container and a leaf lack arguments. -/
def lackingFilter : FilterConstraint :=
  .node .or [] [
    .node .referenceHavingAttribute [] [.node .isNull [.string "a"] []],
    .node .and [] [.node .equals [.string "b"] [], .node .isNull [.string "c"] []]]

theorem lackingFilter_survivors :
    (((QueryPurifier.plain true).on .filter).purify lackingFilter).toList.flatMap
      Constraint.leaves = [.node .isNull [.string "c"] []] := by
  have bare : lackingFilter.LeavesBare := by
    intro own found
    fin_cases found <;> rfl
  exact (leaves_survive_exactly true bare).1

end CatalogQuery
