import CatalogQuery.Config
import CatalogQuery.Proofs.Parse.Trees
import Mathlib.Tactic.FinCases

namespace CatalogQuery

open Grammar

theorem Layout.blank_newLine {indent : List Char} (h : Blank indent) (depth : Nat) :
    Blank (newLine indent depth) := by
  intro c hc
  rcases List.mem_cons.mp hc with rfl | hc
  · rfl
  · obtain ⟨copy, hcopy, hc⟩ := List.mem_flatten.mp hc
    rw [List.eq_of_mem_replicate hcopy] at hc
    exact h c hc

theorem Layout.spaced_indented {indent : List Char} (h : Blank indent) :
    (Layout.indented indent).Spaced where
  opening depth := blank_newLine h (depth + 1)
  separator depth := ⟨_, rfl, blank_newLine h (depth + 1)⟩
  closing depth := blank_newLine h depth

/-- Each node fits a shape of its kind, and the literals read back from their texts. -/
structure Constraint.Spellable {c : Category} (tree : Constraint c) : Prop where
  fits : ∀ node ∈ tree.nodes, node.fitsKind = true
  literals : ∀ node ∈ tree.nodes, ∀ l ∈ node.arguments, l.ReadsBack

theorem Constraint.Spellable.readable_and_fits {c : Category} {tree : Constraint c}
    (h : tree.Spellable) : (tree.readable && tree.fits) = true := by
  have fits : tree.fits = true := List.all_eq_true.mpr h.fits
  rw [readable_of_readsBack h.literals, fits, Bool.and_self]

/-- The constraints of a query have texts that can be read, and their roots are right. -/
structure Query.Spellable (q : Query) : Prop where
  parts : ∀ part ∈ q.parts, part.constraint.Spellable
  rooted : q.rooted = true

theorem Query.Spellable.readable_and_fits {q : Query} (h : q.Spellable) :
    (q.readable && q.fits && q.rooted) = true := by
  have both : q.parts.all (fun part => part.readable && part.fits) = true :=
    List.all_eq_true.mpr fun part hpart => (h.parts part hpart).readable_and_fits
  rw [all_and] at both
  rw [readable, fits, both, h.rooted, Bool.and_self]

/-- **Indented text says what compact text says**, if the indentation is blank. Whether it
is accepted, and as what, is the same; and if the compact text can be read, both are read
as one value that is equal to the original. -/
theorem indented_text_reads_back (config : RenderConfig) (blank : Blank config.indent.toList) :
    (∀ (c : Category) (tree : Constraint c),
      (parse (tree.render config.layout 0)).toOption = (parse tree.text).toOption ∧
      (tree.Spellable → ∃ v : Constraint c,
        parse (tree.render config.layout 0) = .ok (.constraint v.toAny) ∧
        parse tree.text = .ok (.constraint v.toAny) ∧ tree.equal v = true)) ∧
    ∀ q : Query,
      (parse (q.render config.layout)).toOption = (parse q.text).toOption ∧
      (q.Spellable → ∃ v : Query, parse (q.render config.layout) = .ok (.query v) ∧
        parse q.text = .ok (.query v) ∧ q.equal v = true) := by
  have spaced : config.layout.Spaced := Layout.spaced_indented blank
  constructor
  · intro c tree
    have indented := toOption_parse_render spaced tree
    have compact := toOption_parse_constraint tree
    refine ⟨indented.trans compact.symm, ?_⟩
    intro spellable
    rw [if_pos spellable.readable_and_fits, Outcome.toOption_eq_some] at indented compact
    exact ⟨tree.normal, indented, compact, tree.equal_normal⟩
  · intro q
    have indented := toOption_parse_query spaced q
    have compact := toOption_parse_query Layout.spaced_compact q
    refine ⟨indented.trans compact.symm, ?_⟩
    intro spellable
    rw [if_pos spellable.readable_and_fits, Outcome.toOption_eq_some] at indented compact
    exact ⟨q.normal, indented, compact, q.equal_normal⟩

/-- A query with a name that holds a line break and brackets. -/
def brokenName : Query where
  head := .node .entities [.string "Page"] []
  filterBy := some (.node .filterBy [] [.node .isNull [.string "),\n("] []])
  orderBy := none
  require := none

theorem brokenName_reads_back :
    ∃ v, parse (brokenName.render (RenderConfig.layout ⟨" \t"⟩)) = .ok (.query v) ∧
      parse brokenName.text = .ok (.query v) ∧ brokenName.equal v = true := by
  have blank : Blank " \t".toList := by
    intro c hc
    fin_cases hc <;> rfl
  have spellable : brokenName.Spellable := by
    constructor
    · intro part hpart
      constructor
      · fin_cases hpart <;> decide
      · intro node hnode l hl
        refine ⟨l, ?_⟩
        fin_cases hpart <;> fin_cases hnode <;> fin_cases hl <;> exact ⟨rfl, rfl⟩
    · rfl
  exact ((indented_text_reads_back ⟨" \t"⟩ blank).2 brokenName).2 spellable

end CatalogQuery
