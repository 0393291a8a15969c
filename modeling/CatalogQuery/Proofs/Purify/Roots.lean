import CatalogQuery.Proofs.Purify.Steps
import CatalogQuery.Proofs.Query.Normal

/-!
# Roots under purification

A query is created with the root container of each category at the root of its tree. A
purified query is put together from what is left of the trees, and nothing is checked. The
steps of purification themselves keep a root: no root container is collapsible, and one that
is dropped leaves its place empty. What a hook puts in the place of a root is another matter.
-/

namespace CatalogQuery

variable {c : Category}

/-- Whether a tree, if there is one, has a root of the kind. -/
def Query.HasRoot (root : Kind c) (tree : Option (Constraint c)) : Prop :=
  ∀ own ∈ tree, own.kind = root

namespace Query

theorem checkRoot_eq_ok {root : Kind c} {tree : Option (Constraint c)} :
    checkRoot root tree = .ok () ↔ HasRoot root tree := by
  cases tree with
  | none => simp [checkRoot, HasRoot]
  | some own =>
    by_cases same : own.kind = root
    · simp [checkRoot, HasRoot, same]
    · simp [checkRoot, HasRoot, same]

/-- Parts are accepted exactly if each tree has the root of its category. -/
theorem create_eq_ok (q : Query) : create q.head q.filterBy q.orderBy q.require = .ok q ↔
    HasRoot .filterBy q.filterBy ∧ HasRoot .orderBy q.orderBy ∧ HasRoot .require q.require := by
  rw [← checkRoot_eq_ok, ← checkRoot_eq_ok, ← checkRoot_eq_ok]
  constructor
  · intro h
    obtain ⟨_, filterBy, h⟩ := Outcome.bind_eq_ok.mp h
    obtain ⟨_, orderBy, h⟩ := Outcome.bind_eq_ok.mp h
    obtain ⟨_, require, _⟩ := Outcome.bind_eq_ok.mp h
    exact ⟨filterBy, orderBy, require⟩
  · rintro ⟨filterBy, orderBy, require⟩
    rw [create, filterBy, orderBy, require]
    rfl

end Query

namespace Purifier

variable (p : Purifier c)

/-- What the hook puts in the place of a tree is of the kind of the root after the last two
steps, if they leave anything of it. -/
def RespectsRoot (root : Kind c) (tree : Constraint c) : Prop :=
  ∀ other left, p.ask (p.renewed tree) = .replace other → p.settled other = some left →
    left.kind = root

theorem settled_of_not_collapsible {node left : Constraint c}
    (rigid : node.kind.isCollapsible = false) (h : p.settled node = some left) : left = node := by
  obtain ⟨-, sole | ⟨-, same⟩⟩ := p.settled_eq_some h
  · obtain ⟨kind, collapsible, rfl⟩ := Constraint.soleChild?_eq_some sole
    exact absurd collapsible (Bool.eq_false_iff.mp rigid)
  · exact same

/-- Purification keeps a root that is not collapsible exactly if the hook respects it. -/
theorem root_of_purify {root : Kind c} (rigid : root.isCollapsible = false)
    {tree : Constraint c} (own : tree.kind = root) :
    Query.HasRoot root (p.purify tree) ↔ p.RespectsRoot root tree := by
  rw [purify_node, ruled]
  cases ruling : p.ask (p.renewed tree) with
  | keep =>
    constructor
    · intro _ other left replaced
      rw [ruling] at replaced
      cases replaced
    · intro _ left hleft
      have kind : (p.renewed tree).kind = root := by rw [kind_renewed, own]
      have same := p.settled_of_not_collapsible (by rw [kind, rigid]) hleft
      rw [same, kind]
  | replace node =>
    constructor
    · intro rooted other left replaced hleft
      rw [ruling] at replaced
      cases replaced
      exact rooted left hleft
    · intro respects left hleft
      exact respects node left ruling hleft
  | remove =>
    constructor
    · intro _ other left replaced
      rw [ruling] at replaced
      cases replaced
    · intro _ left hleft
      cases hleft

theorem root_of_bind_purify {root : Kind c} (rigid : root.isCollapsible = false)
    {tree : Option (Constraint c)} (own : Query.HasRoot root tree) :
    Query.HasRoot root (tree.bind p.purify) ↔ ∀ node ∈ tree, p.RespectsRoot root node := by
  cases tree with
  | none => exact iff_of_true nofun nofun
  | some node =>
    rw [Option.bind_some, p.root_of_purify rigid (own node rfl)]
    exact ⟨fun h _ same => Option.some.inj same ▸ h, fun h => h node rfl⟩

/-- A hook that puts only roots in the place of roots respects them. -/
theorem respectsRoot_of_replace {root : Kind c} (rigid : root.isCollapsible = false)
    {tree : Constraint c} (own : tree.kind = root)
    (faithful : ∀ node other, node.kind = root → p.ask node = .replace other →
      other.kind = root) : p.RespectsRoot root tree := by
  intro other left replaced settled
  have kind := faithful _ other (by rw [kind_renewed, own]) replaced
  rw [p.settled_of_not_collapsible (by rw [kind, rigid]) settled, kind]

end Purifier

/-- Hooks that put only roots in the place of roots keep a query well-formed. -/
theorem purify_accepted_of_faithful (p : QueryPurifier) {q : Query}
    (accepted : Query.create q.head q.filterBy q.orderBy q.require = .ok q)
    (faithful : ∀ (c : Category) (root : Kind c), Kind.root? c = some root →
      ∀ node other, node.kind = root → (p.on c).ask node = .replace other → other.kind = root) :
    Query.create (p.purify q).head (p.purify q).filterBy (p.purify q).orderBy
      (p.purify q).require = .ok (p.purify q) := by
  obtain ⟨filterBy, orderBy, require⟩ := (Query.create_eq_ok q).mp accepted
  rw [Query.create_eq_ok, p.purify_eq]
  refine ⟨?_, ?_, ?_⟩
  · apply ((p.on .filter).root_of_bind_purify rfl filterBy).mpr
    intro tree ht
    exact (p.on .filter).respectsRoot_of_replace rfl (filterBy tree ht) (faithful .filter _ rfl)
  · apply ((p.on .order).root_of_bind_purify rfl orderBy).mpr
    intro tree ht
    exact (p.on .order).respectsRoot_of_replace rfl (orderBy tree ht) (faithful .order _ rfl)
  · apply ((p.on .require).root_of_bind_purify rfl require).mpr
    intro tree ht
    exact (p.on .require).respectsRoot_of_replace rfl (require tree ht) (faithful .require _ rfl)

/-- **A purified query passes the checks of its creation exactly if every hook respects the
root of its tree**: what it puts in the place of the root, if anything is left of that, is a
root of the category again. Hooks that keep and remove break no root. -/
theorem purified_query_accepted_iff (p : QueryPurifier) {q : Query}
    (accepted : Query.create q.head q.filterBy q.orderBy q.require = .ok q) :
    Query.create (p.purify q).head (p.purify q).filterBy (p.purify q).orderBy
        (p.purify q).require = .ok (p.purify q) ↔
      (∀ tree ∈ q.filterBy, (p.on .filter).RespectsRoot .filterBy tree) ∧
      (∀ tree ∈ q.orderBy, (p.on .order).RespectsRoot .orderBy tree) ∧
      ∀ tree ∈ q.require, (p.on .require).RespectsRoot .require tree := by
  obtain ⟨filterBy, orderBy, require⟩ := (Query.create_eq_ok q).mp accepted
  rw [Query.create_eq_ok, p.purify_eq]
  rw [(p.on .filter).root_of_bind_purify rfl filterBy,
    (p.on .order).root_of_bind_purify rfl orderBy,
    (p.on .require).root_of_bind_purify rfl require]

/-- Unwraps a filter: the first constraint of a root takes the place of the root. -/
def unwrapFilter : QueryPurifier where
  collapse := true
  filterHook := some fun node =>
    match node with
    | .node .filterBy [] (first :: _) => .replace first
    | _ => .keep
  orderHook := none
  requireHook := none

def nullNames : Query where
  head := .node .entities [.string "A"] []
  filterBy := some (.node .filterBy [] [.node .isNull [.string "a"] []])
  orderBy := none
  require := none

theorem unwrapped_query_refused :
    (∃ q, Query.create nullNames.head nullNames.filterBy nullNames.orderBy nullNames.require =
      .ok q) ∧
    ¬∃ q, Query.create (unwrapFilter.purify nullNames).head (unwrapFilter.purify nullNames).filterBy
      (unwrapFilter.purify nullNames).orderBy (unwrapFilter.purify nullNames).require = .ok q := by
  refine ⟨⟨nullNames, rfl⟩, ?_⟩
  rintro ⟨q, created⟩
  have same : q = unwrapFilter.purify nullNames := by
    rw [← Outcome.toOption_eq_some, Query.toOption_create, Option.ite_none_right_eq_some] at created
    exact (Option.some.inj created.2).symm
  rw [same] at created
  obtain ⟨filterBy, -, -⟩ := (purified_query_accepted_iff unwrapFilter rfl).mp created
  have kind := filterBy _ rfl _ _ rfl rfl
  cases kind

end CatalogQuery
