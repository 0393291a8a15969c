import CatalogQuery.Proofs.Parse.RoundTrip
import CatalogQuery.Proofs.Query.Stored

/-!
# Trees that were never text

A constraint can be built without text, by the checked constructor, or read of a stored
form. The checks of the constructor are those of the grammar. So what has passed them is
read back from its text, if its literals are, and a stored form leaves that open only for
the years of zoned date-times.
-/

namespace CatalogQuery

/-- The literal reads back from its own text. -/
def Literal.ReadsBack (l : Literal) : Prop :=
  ∃ l', parseLiteral l.text = .ok l' ∧ l.equal l' = true

theorem Literal.ReadsBack.readable {l : Literal} (h : l.ReadsBack) : l.readable = true := by
  obtain ⟨l', parsed, -⟩ := h
  rw [← Outcome.toOption_eq_some, toOption_parseLiteral_text,
    Option.ite_none_right_eq_some] at parsed
  exact parsed.1

namespace Constraint

variable {c : Category}

/-- A tree is readable if its literals read back. -/
theorem readable_of_readsBack {tree : Constraint c}
    (literals : ∀ node ∈ tree.nodes, ∀ l ∈ node.arguments, l.ReadsBack) :
    tree.readable = true := by
  apply List.all_eq_true.mpr
  intro node hnode
  apply List.all_eq_true.mpr
  intro l hl
  exact (literals node hnode l hl).readable

/-- All nodes have passed the checks, and their literals read back. -/
structure PassesChecks (tree : Constraint c) : Prop where
  checked : ∀ node ∈ tree.nodes, checked node.kind node.arguments node.children = .ok node
  literals : ∀ node ∈ tree.nodes, ∀ l ∈ node.arguments, l.ReadsBack

theorem PassesChecks.readable {tree : Constraint c} (h : tree.PassesChecks) :
    tree.readable = true :=
  readable_of_readsBack h.literals

theorem PassesChecks.fits {tree : Constraint c} (h : tree.PassesChecks) : tree.fits = true := by
  apply List.all_eq_true.mpr
  intro node hnode
  have accepted := h.checked node hnode
  rw [← Outcome.toOption_eq_some, toOption_checked, Option.ite_none_right_eq_some] at accepted
  cases node
  exact accepted.1

/-- **The checked constructor accepts exactly what the grammar accepts.** Given a kind,
literals that read back and children that have passed the checks, it builds a constraint
exactly if the text of the kind with these arguments is parsed, and then to an equal
constraint. -/
theorem checked_iff_parsed (kind : Kind c) {arguments : List Literal}
    {children : List (Constraint c)} (literals : ∀ l ∈ arguments, l.ReadsBack)
    (below : ∀ child ∈ children, child.PassesChecks) :
    let source := kind.keyword.toList ++
      Layout.flat (arguments.map Literal.text ++ children.map Constraint.text)
    ((∃ tree, checked kind arguments children = .ok tree) ↔
        ∃ parsed, parseConstraintAs c source = .ok parsed) ∧
      ∀ tree parsed, checked kind arguments children = .ok tree →
        parseConstraintAs c source = .ok parsed → tree.equal parsed = true := by
  intro source
  have own : arguments.all Literal.readable = true :=
    List.all_eq_true.mpr fun l hl => (literals l hl).readable
  have readable : children.all Constraint.readable = true :=
    List.all_eq_true.mpr fun child hc => (below child hc).readable
  have fits : children.all Constraint.fits = true :=
    List.all_eq_true.mpr fun child hc => (below child hc).fits
  have whole := toOption_parseConstraintAs_text (.node kind arguments children)
  rw [text_node, readable_node, fits_node, own, readable, fits, Bool.and_self, Bool.true_and,
    Bool.and_true] at whole
  have built (tree : Constraint c) := Outcome.eq_ok_iff (b := tree)
    (toOption_checked kind arguments children)
  have parsed (tree : Constraint c) := Outcome.eq_ok_iff (b := tree) whole
  simp only [source, built, parsed]
  constructor
  · constructor
    · rintro ⟨tree, fits, -⟩
      exact ⟨_, fits, rfl⟩
    · rintro ⟨tree, fits, -⟩
      exact ⟨_, fits, rfl⟩
  · rintro tree other ⟨-, rfl⟩ ⟨-, rfl⟩
    exact equal_normal _

def nameIsNull : FilterConstraint := .node .isNull [.string "a"] []

theorem nested_nameIsNull_agrees :
    (∃ parsed, parseConstraintAs .filter "and(isNull('a'))".toList = .ok parsed) ∧
      ¬∃ parsed, parseConstraintAs .filter "isNull('a',isNull('a'))".toList = .ok parsed := by
  have name : ∀ l ∈ [Literal.string "a"], l.ReadsBack := by
    simpa using ⟨Literal.string "a", rfl, rfl⟩
  have below : ∀ child ∈ [nameIsNull], child.PassesChecks := by
    have nodes : nameIsNull.nodes = [nameIsNull] := rfl
    simp only [List.forall_mem_singleton]
    constructor
    · rw [nodes, List.forall_mem_singleton]
      rfl
    · rw [nodes, List.forall_mem_singleton]
      exact name
  have none : ∀ l ∈ ([] : List Literal), l.ReadsBack := by simp
  constructor
  · exact (checked_iff_parsed .and none below).1.mp ⟨_, rfl⟩
  · apply (not_congr (checked_iff_parsed .isNull name below).1).mp
    rintro ⟨tree, built⟩
    cases built

end Constraint

/-- **A stored tree reads back from its text exactly if it is readable.** That holds of
constraints of a category, of constraints of any category and of queries. -/
theorem stored_text_reads_back (json : Json) :
    (∀ (c : Category) (tree : Constraint c), Constraint.ofJson json = .ok tree →
      (tree.readable = true → ∃ any, parseConstraint tree.text = .ok any ∧
        tree.toAny.equal any = true) ∧
      (tree.readable = false → ∃ error, parseConstraint tree.text = .error error)) ∧
    (∀ any, AnyConstraint.ofJson json = .ok any →
      (any.readable = true → ∃ any', parseConstraint any.text = .ok any' ∧
        any.equal any' = true) ∧
      (any.readable = false → ∃ error, parseConstraint any.text = .error error)) ∧
    ∀ q, Query.ofJson json = .ok q →
      (q.readable = true → ∃ q', parseQuery q.text = .ok q' ∧ q.equal q' = true) ∧
      (q.readable = false → ∃ error, parseQuery q.text = .error error) := by
  have constraint {c : Category} {tree : Constraint c} (fits : tree.fits = true) :
      (tree.readable = true → ∃ any, parseConstraint tree.text = .ok any ∧
        tree.toAny.equal any = true) ∧
      (tree.readable = false → ∃ error, parseConstraint tree.text = .error error) := by
    have whole := toOption_parseConstraint_text tree
    rw [fits, Bool.and_true] at whole
    exact Outcome.ok_or_error whole tree.toAny.equal_normal
  refine ⟨?_, ?_, ?_⟩
  · intro c tree h
    exact constraint (Constraint.fits_of_ofJson json h)
  · intro any h
    exact constraint (AnyConstraint.fits_of_ofJson h)
  · intro q h
    obtain ⟨fits, rooted⟩ := Query.fits_of_ofJson h
    have whole := toOption_parseQuery_text q
    rw [fits, rooted, Bool.and_true, Bool.and_true] at whole
    exact Outcome.ok_or_error whole q.equal_normal

/-- The stored form of a filter for an instant. -/
def storedEquals (instant : String) : Json :=
  .object [("kind", .string "equals"), ("arguments", .array [
    .object [("kind", .string "string"), ("value", .string "a")],
    .object [("kind", .string "zoned_date_time"), ("value", .string instant)]])]

theorem stored_new_year_reads_back :
    (∃ tree : FilterConstraint, ∃ any,
      Constraint.ofJson (storedEquals "9999-01-01T00:00:00Z") = .ok tree ∧
      parseConstraint tree.text = .ok any ∧ tree.toAny.equal any = true) ∧
    ∃ tree : FilterConstraint, ∃ error,
      Constraint.ofJson (storedEquals "+10000-01-01T00:00:00Z") = .ok tree ∧
      parseConstraint tree.text = .error error := by
  constructor
  · have last : (Constraint.ofJson (c := .filter)
        (storedEquals "9999-01-01T00:00:00Z")).toOption.map Constraint.readable = some true := by
      decide +kernel
    obtain ⟨tree, stored, holds⟩ := Outcome.toOption_map_eq_some.mp last
    obtain ⟨any, parsed, equal⟩ := ((stored_text_reads_back _).1 _ _ stored).1 holds
    exact ⟨tree, any, stored, parsed, equal⟩
  · have next : (Constraint.ofJson (c := .filter)
        (storedEquals "+10000-01-01T00:00:00Z")).toOption.map Constraint.readable = some false := by
      decide +kernel
    obtain ⟨tree, stored, fails⟩ := Outcome.toOption_map_eq_some.mp next
    obtain ⟨error, refused⟩ := ((stored_text_reads_back _).1 _ _ stored).2 fails
    exact ⟨tree, error, stored, refused⟩

end CatalogQuery
