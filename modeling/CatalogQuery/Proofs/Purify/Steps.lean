import CatalogQuery.Proofs.Constraint.Normal
import CatalogQuery.Purify

namespace CatalogQuery

variable {c : Category}

/-- A kind that gives way to its only child is a container. -/
theorem Kind.isContainer_of_isCollapsible {kind : Kind c} (h : kind.isCollapsible = true) :
    kind.isContainer = true := by
  cases kind <;> revert h <;> decide

namespace Constraint

theorem soleChild?_eq_some {tree child : Constraint c} (h : tree.soleChild? = some child) :
    ∃ kind : Kind c, kind.isCollapsible = true ∧ tree = .node kind [] [child] := by
  unfold soleChild? at h
  split at h
  · rename_i kind own
    rw [Option.ite_none_right_eq_some, Option.some.injEq] at h
    obtain ⟨collapsible, rfl⟩ := h
    exact ⟨kind, collapsible, rfl⟩
  · cases h

/-- The only child of a junction is its child, and the junction is a container. -/
theorem mem_of_soleChild? {tree child : Constraint c} (h : tree.soleChild? = some child) :
    child ∈ tree.children ∧ tree.isContainer = true := by
  obtain ⟨kind, collapsible, rfl⟩ := soleChild?_eq_some h
  exact ⟨List.mem_singleton_self _, Kind.isContainer_of_isCollapsible collapsible⟩

end Constraint

namespace Purifier

/-- What the hook leaves of a node. -/
def ruled (p : Purifier c) (node : Constraint c) : Option (Constraint c) :=
  match p.ask node with
  | .keep => some node
  | .replace other => some other
  | .remove => none

/-- What the last two steps leave of a node. -/
def settled (p : Purifier c) (node : Constraint c) : Option (Constraint c) :=
  if node.isApplicable then some ((if p.collapse then node.soleChild? else none).getD node)
  else none

/-- The node on which the hook rules: its children are purified, if it is a container. -/
def renewed (p : Purifier c) (tree : Constraint c) : Constraint c :=
  if tree.isContainer then tree.withChildren (tree.children.filterMap p.purify) else tree

variable (p : Purifier c)

@[simp] theorem kind_renewed (tree : Constraint c) : (p.renewed tree).kind = tree.kind := by
  cases tree
  unfold renewed
  split <;> rfl

theorem settle_of_applicable {node : Constraint c} (applicable : node.isApplicable = true)
    (isNew : Bool) : p.settle node isNew =
      match if p.collapse then node.soleChild? else none with
      | some child => if isNew then .rebuilt child else .inner child
      | none => if isNew then .rebuilt node else .unchanged := by
  rw [settle, applicable]
  rfl

theorem collapse_eq_none {node : Constraint c} :
    (if p.collapse then node.soleChild? else none) = none ↔
      (p.collapse = true → node.soleChild? = none) := by
  cases p.collapse <;> simp

/-- What is left of an applicable node is its only child or the node itself. -/
theorem settled_eq_some {node left : Constraint c} (h : p.settled node = some left) :
    node.isApplicable = true ∧ (node.soleChild? = some left ∨
      (p.collapse = true → node.soleChild? = none) ∧ left = node) := by
  rw [settled, Option.ite_none_right_eq_some, Option.some.injEq] at h
  obtain ⟨applicable, h⟩ := h
  refine ⟨applicable, ?_⟩
  cases inside : if p.collapse then node.soleChild? else none with
  | none =>
    rw [inside] at h
    exact .inr ⟨p.collapse_eq_none.mp inside, h.symm⟩
  | some child =>
    rw [inside] at h
    cases h
    exact .inl (Option.ite_none_right_eq_some.mp inside).2

/-- A node counts as settled alike whether it was built anew or not. -/
theorem result_settle {before node : Constraint c} {isNew : Bool}
    (same : isNew = false → node = before) :
    (p.settle node isNew).result before = p.settled node := by
  by_cases applicable : node.isApplicable = true
  · rw [settle_of_applicable p applicable, settled, if_pos applicable]
    generalize (if p.collapse then node.soleChild? else none) = inside
    cases isNew with
    | true => cases inside <;> rfl
    | false =>
      cases inside with
      | some child => rfl
      | none => exact congrArg some (same rfl).symm
  · rw [settle, settled, if_neg applicable, Bool.eq_false_iff.mpr applicable]
    rfl

theorem result_conclude {before node : Constraint c} {isNew : Bool}
    (same : isNew = false → node = before) :
    (p.conclude node isNew).result before = (p.ruled node).bind p.settled := by
  cases ruling : p.ask node with
  | keep =>
    rw [conclude, ruled, ruling]
    exact p.result_settle same
  | replace other =>
    rw [conclude, ruled, ruling]
    exact p.result_settle nofun
  | remove =>
    rw [conclude, ruled, ruling]
    rfl

theorem outcomes_eq (children : List (Constraint c)) :
    p.outcomes children = children.map p.outcome := by
  induction children with
  | nil => rfl
  | cons child children ih => rw [outcomes, ih, List.map_cons]

theorem results_outcomes (children : List (Constraint c)) :
    Outcome.results children (p.outcomes children) = children.filterMap p.purify := by
  induction children with
  | nil => rfl
  | cons child children ih =>
    rw [outcomes, Outcome.results, ih, List.filterMap_cons]
    cases purified : p.purify child with
    | none => rw [show (p.outcome child).result child = none from purified]; rfl
    | some left => rw [show (p.outcome child).result child = some left from purified]; rfl

theorem purify_of_unchanged {tree : Constraint c} (h : (p.outcome tree).isUnchanged = true) :
    p.purify tree = some tree := by
  rw [purify]
  cases outcome : p.outcome tree with
  | unchanged => rfl
  | _ => rw [outcome] at h; cases h

theorem filterMap_of_unchanged {children : List (Constraint c)}
    (h : (p.outcomes children).all Outcome.isUnchanged = true) :
    children.filterMap p.purify = children := by
  rw [outcomes_eq, List.all_map, List.all_eq_true] at h
  have kept : ∀ child ∈ children, p.purify child = some child := by
    intro child hc
    exact p.purify_of_unchanged (h child hc)
  rw [List.filterMap_congr kept, List.filterMap_some]

/-- The hook rules on the tree itself unless something below it changed. -/
theorem renew_eq (tree : Constraint c) :
    ∃ isNew, renew tree (p.outcomes tree.children) = (p.renewed tree, isNew) ∧
      (isNew = false → p.renewed tree = tree) := by
  have own : tree.withChildren tree.children = tree := by
    cases tree
    rfl
  unfold renew renewed
  by_cases container : tree.isContainer = true
  · rw [if_pos container, container, Bool.true_and]
    by_cases quiet : (p.outcomes tree.children).all Outcome.isUnchanged = true
    · refine ⟨false, ?_, ?_⟩
      · rw [quiet, filterMap_of_unchanged p quiet, own]
        rfl
      · intro _
        rw [filterMap_of_unchanged p quiet, own]
    · refine ⟨true, ?_, nofun⟩
      rw [Bool.eq_false_iff.mpr quiet, results_outcomes]
      rfl
  · refine ⟨false, ?_, ?_⟩
    · rw [if_neg container, Bool.eq_false_iff.mpr container]
      rfl
    · intro _
      rw [if_neg container]

/-- **What is left of a tree**: its children are purified, the hook rules on the node with
what is left of them, and its ruling is settled. -/
theorem purify_node (tree : Constraint c) :
    p.purify tree = (p.ruled (p.renewed tree)).bind p.settled := by
  cases tree with
  | node kind arguments children =>
    obtain ⟨isNew, renewal, same⟩ := p.renew_eq (.node kind arguments children)
    rw [Constraint.children] at renewal
    rw [purify, outcome, renewal]
    exact p.result_conclude same

end Purifier

namespace QueryPurifier

theorem on_plain (collapse : Bool) : (plain collapse).on c = ⟨collapse, none⟩ := by
  cases c <;> rfl

variable (p : QueryPurifier)

theorem bind_purify_of_keeps {tree : Option (Constraint c)} (h : p.keeps tree = true) :
    tree.bind (p.on c).purify = tree := by
  cases tree with
  | none => rfl
  | some own => exact (p.on c).purify_of_unchanged h

/-- **What is left of a query** is what is left of its trees. -/
theorem purify_eq (q : Query) : p.purify q =
    { head := q.head
      filterBy := q.filterBy.bind (p.on .filter).purify
      orderBy := q.orderBy.bind (p.on .order).purify
      require := q.require.bind (p.on .require).purify } := by
  rw [purify, purify?]
  split
  · rename_i kept
    rw [Bool.and_eq_true, Bool.and_eq_true] at kept
    obtain ⟨⟨filterBy, orderBy⟩, require⟩ := kept
    rw [p.bind_purify_of_keeps filterBy, p.bind_purify_of_keeps orderBy,
      p.bind_purify_of_keeps require]
    rfl
  · rfl

end QueryPurifier
end CatalogQuery
