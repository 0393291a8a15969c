import CatalogQuery.Proofs.Constraint.Fewer
import CatalogQuery.Proofs.Parse.Trees
import CatalogQuery.Proofs.Purify.Idempotence
import CatalogQuery.Proofs.Purify.Roots

/-!
# Purified trees fit

Purification takes children away, puts what a hook says in the place of a node, and lets
children take the place of junctions. A property of trees survives all that if it goes down
to children, and up again to an applicable node with fewer of them. Fitting a shape at every
node is one, and so is being readable.
-/

namespace CatalogQuery

variable {c : Category}

namespace Purifier

variable (p : Purifier c)

/-- A property that goes down to children and up to applicable nodes that have lost some,
and that what the hook puts in the place of a node has. -/
structure Keeps (P : Constraint c → Prop) : Prop where
  down : ∀ tree, P tree → ∀ child ∈ tree.children, P child
  up : ∀ kind arguments children fewer, P (.node kind arguments children) →
    (∀ child ∈ fewer, P child) → fewer.length ≤ children.length →
    Constraint.isApplicable (.node kind arguments fewer) = true → P (.node kind arguments fewer)
  replaced : ∀ node other, p.ask node = .replace other → P other

variable {p} {P : Constraint c → Prop}

/-- The node on which the hook rules has the property if it is applicable. -/
theorem Keeps.renewed (keeps : p.Keeps P) {tree : Constraint c} (h : P tree)
    (below : ∀ child ∈ tree.children, ∀ left, p.purify child = some left → P left)
    (applicable : (p.renewed tree).isApplicable = true) : P (p.renewed tree) := by
  cases tree with
  | node kind arguments children =>
    unfold Purifier.renewed at applicable ⊢
    split
    · rename_i container
      rw [if_pos container] at applicable
      refine keeps.up kind arguments children _ h ?_ (List.length_filterMap_le _ _) applicable
      intro left hl
      obtain ⟨child, hc, purified⟩ := List.mem_filterMap.mp hl
      exact below child hc left purified
    · exact h

/-- **What purification keeps at each step it keeps of a tree.** -/
theorem Keeps.purify (keeps : p.Keeps P) {tree left : Constraint c} (h : P tree)
    (purified : p.purify tree = some left) : P left := by
  induction tree using Constraint.induct generalizing left with
  | node kind arguments children ih =>
    rw [purify_node, Option.bind_eq_some_iff] at purified
    obtain ⟨node, ruled, settled⟩ := purified
    obtain ⟨applicable, place⟩ := p.settled_eq_some settled
    have own : P node := by
      unfold Purifier.ruled at ruled
      split at ruled
      · cases ruled
        refine keeps.renewed h (fun child hc left => ?_) applicable
        exact ih child hc (keeps.down _ h child hc)
      · rename_i ruling
        cases ruled
        exact keeps.replaced _ _ ruling
      · cases ruled
    rcases place with sole | ⟨-, rfl⟩
    · exact keeps.down node own left (Constraint.mem_of_soleChild? sole).1
    · exact own

/-! ### Two properties that are kept -/

/-- What the hook puts in the place of a node fits at every node. -/
def ReplacesFitting (p : Purifier c) : Prop :=
  ∀ node other, p.ask node = .replace other → other.fits = true

theorem OnlyRemoves.replacesFitting (removes : p.OnlyRemoves) : p.ReplacesFitting :=
  fun node other ruling => absurd ruling (removes node other)

theorem keeps_fits (replaces : p.ReplacesFitting) : p.Keeps fun tree => tree.fits = true where
  down tree fits := by
    cases tree with
    | node kind arguments children =>
      rw [Constraint.fits_node, Bool.and_eq_true] at fits
      exact List.all_eq_true.mp fits.2
  up kind arguments children fewer fits below le applicable := by
    rw [Constraint.fits_node, Bool.and_eq_true] at fits ⊢
    exact ⟨Constraint.fitsKind_of_fewer le applicable fits.1, List.all_eq_true.mpr below⟩
  replaced := replaces

theorem keeps_readable (removes : p.OnlyRemoves) :
    p.Keeps fun tree => tree.readable = true where
  down tree readable := by
    cases tree with
    | node kind arguments children =>
      rw [Constraint.readable_node, Bool.and_eq_true] at readable
      exact List.all_eq_true.mp readable.2
  up kind arguments children fewer readable below _ _ := by
    rw [Constraint.readable_node, Bool.and_eq_true] at readable ⊢
    exact ⟨readable.1, List.all_eq_true.mpr below⟩
  replaced node other ruling := absurd ruling (removes node other)

end Purifier

/-! ### Queries -/

namespace QueryPurifier

open Constraint (toAny)

variable {p : QueryPurifier} {q : Query}

/-- What purification keeps of each tree it keeps of all parts of a query. -/
theorem parts_purify {P : AnyConstraint → Prop}
    (keeps : ∀ c, (p.on c).Keeps fun tree => P tree.toAny) (h : ∀ any ∈ q.parts, P any) :
    ∀ any ∈ (p.purify q).parts, P any := by
  have part {c : Category} {tree : Option (Constraint c)}
      (all : ∀ any ∈ (tree.map toAny).toList, P any) :
      ∀ any ∈ ((tree.bind (p.on c).purify).map toAny).toList, P any := by
    intro any ha
    obtain ⟨left, hleft, rfl⟩ := Grammar.mem_toList_map ha
    obtain ⟨own, rfl, purified⟩ := Option.bind_eq_some_iff.mp hleft
    exact (keeps c).purify (all own.toAny (List.mem_singleton_self _)) purified
  rw [p.purify_eq]
  simp only [Query.parts, List.forall_mem_cons, List.forall_mem_append] at h ⊢
  obtain ⟨head, ⟨filterBy, orderBy⟩, require⟩ := h
  exact ⟨head, ⟨part filterBy, part orderBy⟩, part require⟩

/-- Hooks that replace nothing leave a query that passes the checks of its creation. -/
theorem rooted_purify (removes : p.OnlyRemoves)
    (h : Query.create q.head q.filterBy q.orderBy q.require = .ok q) :
    (p.purify q).rooted = true := by
  have created := purify_accepted_of_faithful p h fun c _ _ node other _ ruling =>
    absurd ruling (removes c node other)
  rw [← Outcome.toOption_eq_some, Query.toOption_create, Option.ite_none_right_eq_some] at created
  exact created.1

end QueryPurifier

/-- A query that is as the grammar spells it: it passes the checks of its creation, and its
constraints fit a shape of their kinds at every node. -/
structure Query.Grammatical (q : Query) : Prop where
  created : Query.create q.head q.filterBy q.orderBy q.require = .ok q
  fits : ∀ any ∈ q.parts, any.fits = true

/-- Each literal of the query reads back from its own text. -/
def Query.LiteralsReadBack (q : Query) : Prop :=
  ∀ any ∈ q.parts, ∀ node ∈ any.constraint.nodes, ∀ l ∈ node.arguments, l.ReadsBack

/-- **Purification stays inside the grammar.** If a tree fits a shape at every node, and all
that the hook puts in the place of a node does, then so does what is left of the tree, if
anything is. If the hooks only keep and remove, the text of a purified query is read back as
an equal query. -/
theorem purified_trees_fit (p : QueryPurifier) :
    (∀ (c : Category) (tree : Constraint c), (p.on c).ReplacesFitting → tree.fits = true →
      ∀ left, (p.on c).purify tree = some left → left.fits = true) ∧
    ∀ q : Query, p.OnlyRemoves → q.Grammatical → q.LiteralsReadBack →
      ∃ q', parseQuery (p.purify q).text = .ok q' ∧ (p.purify q).equal q' = true := by
  constructor
  · intro c tree replaces fits left purified
    exact (Purifier.keeps_fits replaces).purify fits purified
  · intro q removes grammatical literals
    have readable : (p.purify q).readable = true := by
      apply List.all_eq_true.mpr
      apply QueryPurifier.parts_purify (P := fun any => any.readable = true)
      · exact fun c => Purifier.keeps_readable (removes c)
      · intro any ha
        apply List.all_eq_true.mpr
        intro node hn
        exact List.all_eq_true.mpr fun l hl => (literals any ha node hn l hl).readable
    have fits : (p.purify q).fits = true := by
      apply List.all_eq_true.mpr
      apply QueryPurifier.parts_purify (P := fun any => any.fits = true)
      · exact fun c => Purifier.keeps_fits (removes c).replacesFitting
      · exact grammatical.fits
    have rooted := QueryPurifier.rooted_purify removes grammatical.created
    refine ⟨(p.purify q).normal, ?_, (p.purify q).equal_normal⟩
    rw [← Outcome.toOption_eq_some, toOption_parseQuery_text, readable, fits, rooted]
    rfl

/-- A test of an attribute for a value becomes a test of it as a flag. -/
def flagRuling : FilterConstraint → Ruling .filter
  | .node .equals (.string name :: _) _ => .replace (.node .isTrue [.string name] [])
  | _ => .keep

theorem fits_of_flagRuling {node other : FilterConstraint} (h : flagRuling node = .replace other) :
    other.fits = true := by
  unfold flagRuling at h
  split at h
  · cases h
    rfl
  · cases h

/-- Tests for values become tests for flags throughout a filter. -/
def flagEquals : QueryPurifier where
  collapse := true
  filterHook := some flagRuling
  orderHook := none
  requireHook := none

/-- A query with a negation of which nothing is left without tests for missing attributes. -/
def negatedNull : Query where
  head := .node .entities [.string "A"] []
  filterBy := some (.node .filterBy [] [.node .not [] [.node .isNull [.string "a"] []],
    .node .isTrue [.string "b"] []])
  orderBy := none
  require := none

/-- A negation of a junction of a single test. -/
def negatedEquals : FilterConstraint :=
  .node .not [] [.node .and [] [.node .equals [.string "a", .boolean true] []]]

theorem negatedNull_reads_back :
    (∃ left, (flagEquals.on .filter).purify negatedEquals = some left ∧ left.fits = true) ∧
    ∃ q', parseQuery (dropNulls.purify negatedNull).text = .ok q' ∧
      (dropNulls.purify negatedNull).equal q' = true := by
  constructor
  · have replaces : (flagEquals.on .filter).ReplacesFitting :=
      fun _ _ ruling => fits_of_flagRuling ruling
    have left : (flagEquals.on .filter).purify negatedEquals =
      some (.node .not [] [.node .isTrue [.string "a"] []]) := rfl
    exact ⟨_, left, (purified_trees_fit flagEquals).1 .filter _ replaces rfl _ left⟩
  · have grammatical : negatedNull.Grammatical := ⟨rfl, List.all_eq_true.mp rfl⟩
    have names : ∀ l ∈ [Literal.string "A", .string "a", .string "b"], l.ReadsBack := by
      simpa using ⟨⟨Literal.string "A", rfl, rfl⟩, ⟨Literal.string "a", rfl, rfl⟩,
        ⟨Literal.string "b", rfl, rfl⟩⟩
    have literals : negatedNull.LiteralsReadBack := by
      intro any ha node hn l hl
      have all : negatedNull.parts.flatMap (·.constraint.nodes.flatMap (·.arguments)) =
        [.string "A", .string "a", .string "b"] := rfl
      apply names
      rw [← all]
      exact List.mem_flatMap.mpr ⟨any, ha, List.mem_flatMap.mpr ⟨node, hn, hl⟩⟩
    exact (purified_trees_fit dropNulls).2 _ dropNulls_onlyRemoves grammatical literals

end CatalogQuery
