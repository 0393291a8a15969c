import CatalogQuery.Proofs.Purify.Steps
import CatalogQuery.Search

/-!
# Purifying again

A tree is pure if none of the steps of purification applies at any of its nodes. A run
reports a tree as unchanged exactly if it is pure. Hooks that replace nothing leave pure
trees only: the children of a node are pure when the hook rules on it, and neither the
ruling nor a collapse touches them afterwards. So a second run changes nothing.

* `Purifier.Pure`, `Purifier.outcome_eq_unchanged_iff`: the trees that stay as they are;
* `Purifier.pure_of_purify`: what is left of a tree is pure;
* `Purifier.pure_or_shrinks`: a tree that changes loses nodes;
* `purify_idempotent_by_reference`: what each run reports, for trees and for queries.
-/

namespace CatalogQuery

variable {c : Category}

theorem Outcome.isUnchanged_iff {outcome : Outcome c} :
    outcome.isUnchanged = true ↔ outcome = .unchanged := by
  cases outcome <;> simp [Outcome.isUnchanged]

namespace Constraint

theorem size_pos (tree : Constraint c) : 0 < tree.size := by
  rw [size_eq]
  exact Nat.succ_pos _

theorem size_lt_of_mem {tree child : Constraint c} (h : child ∈ tree.children) :
    child.size < tree.size := by
  have below {trees : List (Constraint c)} (h : child ∈ trees) : child.size ≤ sizeAll trees := by
    induction trees with
    | nil => cases h
    | cons first rest ih =>
      rw [sizeAll]
      rcases List.mem_cons.mp h with rfl | h
      · omega
      · have := ih h
        omega
  rw [size_eq tree]
  exact Nat.lt_succ_of_le (below h)

end Constraint

namespace Purifier

variable (p : Purifier c)

/-- A tree at which no step applies: the hook keeps each node, each is applicable, and none
gives way to its only child. Below a leaf no node is looked at. -/
inductive Pure : Constraint c → Prop
  | node {tree : Constraint c} : p.ask tree = .keep → tree.isApplicable = true →
    (p.collapse = true → tree.soleChild? = none) →
    (tree.isContainer = true → ∀ child ∈ tree.children, Pure child) → Pure tree

/-- The hook keeps or removes, and replaces nothing. -/
def OnlyRemoves : Prop := ∀ node other, p.ask node ≠ .replace other

/-! ### What stays as it is -/

theorem settle_eq_unchanged_iff {node : Constraint c} {isNew : Bool} :
    p.settle node isNew = .unchanged ↔ isNew = false ∧ node.isApplicable = true ∧
      (p.collapse = true → node.soleChild? = none) := by
  rw [← collapse_eq_none]
  by_cases applicable : node.isApplicable = true
  · rw [settle_of_applicable p applicable]
    generalize (if p.collapse then node.soleChild? else none) = inside
    cases inside <;> cases isNew <;> simp [applicable]
  · simp [settle, applicable]

theorem conclude_eq_unchanged_iff {node : Constraint c} {isNew : Bool} :
    p.conclude node isNew = .unchanged ↔ p.ask node = .keep ∧ isNew = false ∧
      node.isApplicable = true ∧ (p.collapse = true → node.soleChild? = none) := by
  unfold conclude
  cases p.ask node with
  | keep => simp [settle_eq_unchanged_iff]
  | replace other => simp [settle_eq_unchanged_iff]
  | remove => simp

/-- Nothing is built anew exactly if all purified children stayed as they were. -/
theorem renew_eq_self_iff {tree : Constraint c} {outcomes : List (Outcome c)} :
    (renew tree outcomes).2 = false ↔
      (tree.isContainer = true → ∀ outcome ∈ outcomes, outcome = .unchanged) := by
  unfold renew
  by_cases container : tree.isContainer = true
  · have all : outcomes.all Outcome.isUnchanged = true ↔
        ∀ outcome ∈ outcomes, outcome = .unchanged := by
      simp only [List.all_eq_true, Outcome.isUnchanged_iff]
    rw [← all, container, Bool.true_and]
    cases outcomes.all Outcome.isUnchanged <;> simp
  · simp [container]

theorem renew_of_quiet {tree : Constraint c} {outcomes : List (Outcome c)}
    (quiet : (renew tree outcomes).2 = false) : (renew tree outcomes).1 = tree := by
  unfold renew at quiet ⊢
  split at quiet
  · cases quiet
  · rename_i same
    rw [if_neg same]

/-- **A tree stays as it is exactly if it is pure.** -/
theorem outcome_eq_unchanged_iff (tree : Constraint c) :
    p.outcome tree = .unchanged ↔ p.Pure tree := by
  induction tree using Constraint.induct with
  | node kind arguments children ih =>
    have below : (∀ outcome ∈ p.outcomes children, outcome = .unchanged) ↔
        ∀ child ∈ children, p.Pure child := by
      rw [outcomes_eq, List.forall_mem_map]
      exact forall₂_congr ih
    rw [outcome]
    change p.conclude (renew _ _).1 (renew _ _).2 = _ ↔ _
    rw [conclude_eq_unchanged_iff]
    constructor
    · rintro ⟨keep, quiet, applicable, whole⟩
      rw [renew_of_quiet quiet] at keep applicable whole
      exact .node keep applicable whole fun container =>
        below.mp (renew_eq_self_iff.mp quiet container)
    · intro pure
      cases pure with
      | node keep applicable whole pure =>
        have quiet := renew_eq_self_iff.mpr fun container => below.mpr (pure container)
        rw [renew_of_quiet quiet]
        exact ⟨keep, quiet, applicable, whole⟩

theorem purify_of_pure {tree : Constraint c} (h : p.Pure tree) : p.purify tree = some tree :=
  p.purify_of_unchanged (Outcome.isUnchanged_iff.mpr ((p.outcome_eq_unchanged_iff tree).mpr h))

/-! ### What is left -/

section
variable {p}

theorem ruled_eq_some (removes : p.OnlyRemoves) {node other : Constraint c}
    (h : p.ruled node = some other) : p.ask node = .keep ∧ other = node := by
  unfold ruled at h
  cases ruling : p.ask node with
  | keep =>
    rw [ruling] at h
    cases h
    exact ⟨rfl, rfl⟩
  | replace other => exact absurd ruling (removes node other)
  | remove =>
    rw [ruling] at h
    cases h

/-- What is left of a tree is the node on which the hook ruled, or its only child. -/
theorem purify_eq_some (removes : p.OnlyRemoves) {tree left : Constraint c}
    (h : p.purify tree = some left) :
    p.ask (p.renewed tree) = .keep ∧ (p.renewed tree).isApplicable = true ∧
      ((p.renewed tree).soleChild? = some left ∨
        (p.collapse = true → (p.renewed tree).soleChild? = none) ∧ left = p.renewed tree) := by
  rw [purify_node, Option.bind_eq_some_iff] at h
  obtain ⟨node, ruled, settled⟩ := h
  obtain ⟨keep, rfl⟩ := ruled_eq_some removes ruled
  exact ⟨keep, p.settled_eq_some settled⟩

theorem mem_renewed {tree child : Constraint c} (container : (p.renewed tree).isContainer = true)
    (h : child ∈ (p.renewed tree).children) : ∃ own ∈ tree.children, p.purify own = some child := by
  cases tree with
  | node kind arguments children =>
    have sort : Constraint.isContainer (.node kind arguments children) = true := by
      rwa [Constraint.isContainer, kind_renewed] at container
    rw [renewed, if_pos sort] at h
    exact List.mem_filterMap.mp h

/-- **What hooks that replace nothing leave of a tree is pure.** -/
theorem pure_of_purify (removes : p.OnlyRemoves) {tree left : Constraint c}
    (h : p.purify tree = some left) : p.Pure left := by
  induction tree using Constraint.induct generalizing left with
  | node kind arguments children ih =>
    -- The children on which the hook rules are what was left of children, so they are pure
    -- before the node is looked at, and none of the later steps goes below the node.
    have below : (p.renewed (.node kind arguments children)).isContainer = true →
        ∀ child ∈ (p.renewed (.node kind arguments children)).children, p.Pure child := by
      intro container child hc
      obtain ⟨own, ho, purified⟩ := mem_renewed container hc
      exact ih own ho purified
    obtain ⟨keep, applicable, sole | ⟨whole, rfl⟩⟩ := purify_eq_some removes h
    · obtain ⟨mem, container⟩ := Constraint.mem_of_soleChild? sole
      exact below container left mem
    · exact .node keep applicable whole below

/-! ### What a change costs -/

/-- What is left of trees has fewer nodes unless all of them are pure. -/
theorem sizeAll_purified {trees : List (Constraint c)}
    (each : ∀ tree ∈ trees, p.Pure tree ∨
      ∀ left, p.purify tree = some left → left.size < tree.size) :
    (∀ tree ∈ trees, p.Pure tree) ∧ trees.filterMap p.purify = trees ∨
      Constraint.sizeAll (trees.filterMap p.purify) < Constraint.sizeAll trees := by
  induction trees with
  | nil => exact .inl ⟨nofun, rfl⟩
  | cons tree trees ih =>
    obtain ⟨first, rest⟩ := List.forall_mem_cons.mp each
    have others := ih rest
    rcases first with pure | less
    · have kept := p.purify_of_pure pure
      rw [List.filterMap_cons_some kept, Constraint.sizeAll, Constraint.sizeAll]
      rcases others with ⟨all, same⟩ | fewer
      · exact .inl ⟨List.forall_mem_cons.mpr ⟨pure, all⟩, by rw [same]⟩
      · exact .inr (Nat.add_lt_add_left fewer _)
    · right
      have le : Constraint.sizeAll (trees.filterMap p.purify) ≤ Constraint.sizeAll trees := by
        rcases others with ⟨-, same⟩ | fewer
        · rw [same]
        · exact fewer.le
      cases purified : p.purify tree with
      | none =>
        have pos := tree.size_pos
        rw [List.filterMap_cons_none purified, Constraint.sizeAll]
        omega
      | some left =>
        have smaller := less left purified
        rw [List.filterMap_cons_some purified, Constraint.sizeAll, Constraint.sizeAll]
        omega

/-- The node on which the hook rules is the tree itself or has fewer nodes. -/
theorem renewed_eq_or_shrinks (tree : Constraint c)
    (each : ∀ child ∈ tree.children, p.Pure child ∨
      ∀ left, p.purify child = some left → left.size < child.size) :
    p.renewed tree = tree ∧ (tree.isContainer = true → ∀ child ∈ tree.children, p.Pure child) ∨
      (p.renewed tree).size < tree.size := by
  cases tree with
  | node kind arguments children =>
    unfold renewed
    by_cases container : Constraint.isContainer (.node kind arguments children) = true
    · rw [if_pos container, Constraint.children, Constraint.withChildren]
      rcases sizeAll_purified each with ⟨pure, same⟩ | fewer
      · exact .inl ⟨congrArg (Constraint.node kind arguments) same, fun _ => pure⟩
      · exact .inr (Nat.succ_lt_succ fewer)
    · exact .inl ⟨if_neg container, fun sort => absurd sort container⟩

/-- **A tree is pure, or what is left of it has fewer nodes.** -/
theorem pure_or_shrinks (removes : p.OnlyRemoves) (tree : Constraint c) :
    p.Pure tree ∨ ∀ left, p.purify tree = some left → left.size < tree.size := by
  induction tree using Constraint.induct with
  | node kind arguments children ih =>
    by_cases pure : p.Pure (.node kind arguments children)
    · exact .inl pure
    right
    intro left h
    -- If nothing was lost below the node, the node itself is lost: else it were pure.
    have renewal := renewed_eq_or_shrinks (.node kind arguments children) ih
    obtain ⟨keep, applicable, sole | ⟨whole, rfl⟩⟩ := purify_eq_some removes h
    · have inside := Constraint.size_lt_of_mem (Constraint.mem_of_soleChild? sole).1
      rcases renewal with ⟨same, -⟩ | fewer
      · rwa [same] at inside
      · exact inside.trans fewer
    · rcases renewal with ⟨same, below⟩ | fewer
      · rw [same] at keep applicable whole
        exact absurd (.node keep applicable whole below) pure
      · exact fewer

end

/-- What a run makes of a tree is what it reports, and it leaves nothing to a second run. -/
structure Settles (tree : Constraint c) : Prop where
  /-- A tree is reported unchanged exactly if it is what is left of it. -/
  unchanged : p.outcome tree = .unchanged ↔ p.purify tree = some tree
  /-- A tree that changes vanishes or loses nodes. -/
  shrinks : p.outcome tree ≠ .unchanged → ∀ left, p.purify tree = some left → left.size < tree.size
  /-- What is left is reported unchanged, and all of it is left again. -/
  again : ∀ left, p.purify tree = some left →
    p.outcome left = .unchanged ∧ p.purify left = some left

theorem settles_of_onlyRemoves {p : Purifier c} (removes : p.OnlyRemoves) (tree : Constraint c) :
    p.Settles tree := by
  have cost := pure_or_shrinks removes tree
  constructor
  · rw [outcome_eq_unchanged_iff]
    refine ⟨p.purify_of_pure, fun same => ?_⟩
    exact pure_of_purify removes same
  · intro changed
    rw [ne_eq, outcome_eq_unchanged_iff] at changed
    exact cost.resolve_left changed
  · intro left h
    have pure := pure_of_purify removes h
    exact ⟨(p.outcome_eq_unchanged_iff left).mpr pure, p.purify_of_pure pure⟩

end Purifier

/-! ### Queries -/

def Query.treeSize (tree : Option (Constraint c)) : Nat := tree.elim 0 Constraint.size

def Query.size (q : Query) : Nat :=
  q.head.size + treeSize q.filterBy + treeSize q.orderBy + treeSize q.require

namespace QueryPurifier

variable (p : QueryPurifier)

/-- No hook replaces a node. -/
def OnlyRemoves : Prop := ∀ c, (p.on c).OnlyRemoves

/-- What a run makes of a query is what it reports, and it leaves nothing to a second run. -/
structure Settles (q : Query) : Prop where
  /-- A query is reported unchanged exactly if it is what is left of it. -/
  unchanged : p.purify? q = none ↔ p.purify q = q
  /-- A query that changes loses nodes. -/
  shrinks : p.purify? q ≠ none → (p.purify q).size < q.size
  /-- What is left is reported unchanged. -/
  again : p.purify? (p.purify q) = none

theorem keeps_iff {tree : Option (Constraint c)} :
    p.keeps tree = true ↔ ∀ own ∈ tree, (p.on c).Pure own := by
  cases tree with
  | none => simp [keeps]
  | some own => simp [keeps, Outcome.isUnchanged_iff, Purifier.outcome_eq_unchanged_iff]

theorem purify?_eq_none_iff {q : Query} : p.purify? q = none ↔
    p.keeps q.filterBy = true ∧ p.keeps q.orderBy = true ∧ p.keeps q.require = true := by
  rw [← and_assoc, ← Bool.and_eq_true, ← Bool.and_eq_true, purify?]
  split
  · rename_i kept
    exact iff_of_true rfl kept
  · rename_i changed
    exact iff_of_false (Option.some_ne_none _) changed

variable {p}

theorem keeps_bind_purify (removes : p.OnlyRemoves) (tree : Option (Constraint c)) :
    p.keeps (tree.bind (p.on c).purify) = true := by
  apply p.keeps_iff.mpr
  intro left h
  obtain ⟨own, -, purified⟩ := Option.bind_eq_some_iff.mp h
  exact Purifier.pure_of_purify (removes c) purified

theorem keeps_or_shrinks (removes : p.OnlyRemoves) (tree : Option (Constraint c)) :
    p.keeps tree = true ∨ Query.treeSize (tree.bind (p.on c).purify) < Query.treeSize tree := by
  cases tree with
  | none => exact .inl rfl
  | some own =>
    rcases Purifier.pure_or_shrinks (removes c) own with pure | less
    · exact .inl (p.keeps_iff.mpr fun _ same => Option.some.inj same ▸ pure)
    · right
      rw [Option.bind_some]
      cases purified : (p.on c).purify own with
      | none => exact own.size_pos
      | some left => exact less left purified

theorem treeSize_le (removes : p.OnlyRemoves) (tree : Option (Constraint c)) :
    Query.treeSize (tree.bind (p.on c).purify) ≤ Query.treeSize tree := by
  rcases keeps_or_shrinks removes tree with kept | less
  · rw [p.bind_purify_of_keeps kept]
  · exact less.le

theorem size_purify_lt (removes : p.OnlyRemoves) {q : Query} (changed : p.purify? q ≠ none) :
    (p.purify q).size < q.size := by
  have filterBy := keeps_or_shrinks removes q.filterBy
  have orderBy := keeps_or_shrinks removes q.orderBy
  have require := keeps_or_shrinks removes q.require
  have filterBy_le := treeSize_le removes q.filterBy
  have orderBy_le := treeSize_le removes q.orderBy
  have require_le := treeSize_le removes q.require
  rw [ne_eq, p.purify?_eq_none_iff] at changed
  rw [p.purify_eq, Query.size, Query.size]
  dsimp only
  rcases filterBy with filterBy | less
  · rcases orderBy with orderBy | less
    · rcases require with require | less
      · exact absurd ⟨filterBy, orderBy, require⟩ changed
      · omega
    · omega
  · omega

theorem settles_of_onlyRemoves (removes : p.OnlyRemoves) (q : Query) : p.Settles q := by
  constructor
  · constructor
    · intro same
      rw [purify, same, Option.getD_none]
    · intro same
      by_contra changed
      have less := size_purify_lt removes changed
      rw [same] at less
      exact lt_irrefl _ less
  · exact size_purify_lt removes
  · rw [p.purify_eq, p.purify?_eq_none_iff]
    exact ⟨keeps_bind_purify removes _, keeps_bind_purify removes _, keeps_bind_purify removes _⟩

end QueryPurifier

/-- **Purification is idempotent, and a run reports what it does**, whatever the tree or the
query is made of, if the hooks only keep and remove. What is left is reported unchanged by a
second run. A run reports "unchanged" exactly if its result is its input, and a change only
if something vanished or nodes were lost. -/
theorem purify_idempotent_by_reference (p : QueryPurifier) (removes : p.OnlyRemoves) :
    (∀ (c : Category) (tree : Constraint c), (p.on c).Settles tree) ∧ ∀ q, p.Settles q :=
  ⟨fun c tree => Purifier.settles_of_onlyRemoves (removes c) tree,
    fun q => QueryPurifier.settles_of_onlyRemoves removes q⟩

/-- Takes tests for missing attributes out of a filter. -/
def dropNulls : QueryPurifier where
  collapse := true
  filterHook := some fun node => if node.kind = .isNull then .remove else .keep
  orderHook := none
  requireHook := none

theorem dropNulls_onlyRemoves : dropNulls.OnlyRemoves := by
  intro c node other
  cases c with
  | filter =>
    change (if node.kind = .isNull then Ruling.remove else .keep) ≠ .replace other
    split <;> nofun
  | _ => nofun

/-- A filter with a hollow junction, and with one of which a single child is left. -/
def hollowFilter : FilterConstraint :=
  .node .filterBy [] [.node .and [] [.node .or [] []],
    .node .or [] [.node .isNull [.string "a"] [], .node .isTrue [.string "b"] []]]

theorem hollowFilter_settles :
    ∃ left, (dropNulls.on .filter).purify hollowFilter = some left ∧
      left.size < hollowFilter.size ∧ (dropNulls.on .filter).outcome left = .unchanged := by
  have settles :=
    (purify_idempotent_by_reference dropNulls dropNulls_onlyRemoves).1 .filter hollowFilter
  have rest : (dropNulls.on .filter).purify hollowFilter =
    some (.node .filterBy [] [.node .isTrue [.string "b"] []]) := rfl
  exact ⟨_, rest, settles.shrinks nofun _ rest, (settles.again _ rest).1⟩

end CatalogQuery
