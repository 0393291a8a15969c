import CatalogQuery.Proofs.Constraint.Normal
import CatalogQuery.Proofs.Outcome

namespace CatalogQuery

namespace AnyConstraint

def readable (any : AnyConstraint) : Bool := any.constraint.readable

def fits (any : AnyConstraint) : Bool := any.constraint.fits

def negativeZeros (any : AnyConstraint) : Nat := any.constraint.negativeZeros

def normal (any : AnyConstraint) : AnyConstraint := any.constraint.normal.toAny

/-- Whether a constraint may be a part of a query. -/
def isPart : AnyConstraint → Bool
  | ⟨.head, _⟩ => true
  | ⟨.filter, tree⟩ => tree.kind = .filterBy
  | ⟨.order, tree⟩ => tree.kind = .orderBy
  | ⟨.require, tree⟩ => tree.kind = .require

theorem equal_normal (any : AnyConstraint) : any.equal any.normal = true := by
  have own : any.normal.as? any.category = some any.constraint.normal := as?_self _
  rw [equal, own]
  exact any.constraint.equal_normal

theorem length_text (any : AnyConstraint) :
    any.text.length = any.normal.text.length + any.negativeZeros :=
  any.constraint.length_text

theorem text_normal {any : AnyConstraint} (h : any.negativeZeros = 0) :
    any.normal.text = any.text :=
  Constraint.text_normal h

theorem isPart_normal (any : AnyConstraint) : any.normal.isPart = any.isPart := by
  obtain ⟨category, tree⟩ := any
  cases category <;> simp only [normal, Constraint.toAny, isPart, Constraint.kind_normal]

end AnyConstraint

namespace Query

open Constraint (toAny)

/-- The constraints a query is made of, in the order in which they are written. -/
def parts (q : Query) : List AnyConstraint :=
  q.head.toAny :: ((q.filterBy.map toAny).toList ++ (q.orderBy.map toAny).toList
    ++ (q.require.map toAny).toList)

def readable (q : Query) : Bool := q.parts.all AnyConstraint.readable

def fits (q : Query) : Bool := q.parts.all AnyConstraint.fits

/-- Whether all parts of a query may be parts of one. -/
def rooted (q : Query) : Bool := q.parts.all AnyConstraint.isPart

theorem rooted_eq (q : Query) : q.rooted =
    ((q.filterBy.map toAny).toList.all AnyConstraint.isPart &&
      (q.orderBy.map toAny).toList.all AnyConstraint.isPart &&
      (q.require.map toAny).toList.all AnyConstraint.isPart) := by
  rw [rooted, parts, List.all_cons, List.all_append, List.all_append]
  exact Bool.true_and _

def negativeZeros (q : Query) : Nat := (q.parts.map AnyConstraint.negativeZeros).sum

def normal (q : Query) : Query where
  head := q.head.normal
  filterBy := q.filterBy.map Constraint.normal
  orderBy := q.orderBy.map Constraint.normal
  require := q.require.map Constraint.normal

theorem parts_normal (q : Query) : q.normal.parts = q.parts.map AnyConstraint.normal := by
  have part {c : Category} (tree : Option (Constraint c)) :
      ((tree.map Constraint.normal).map toAny).toList =
        (tree.map toAny).toList.map AnyConstraint.normal := by
    cases tree <;> rfl
  simp only [parts, normal, part, List.map_cons, List.map_append]
  rfl

theorem equal?_normal {c : Category} (tree : Option (Constraint c)) :
    Constraint.equal? tree (tree.map Constraint.normal) = true := by
  cases tree with
  | none => rfl
  | some tree => exact tree.equal_normal

/-- **A query is what its text says**, up to the forms of its literals. -/
theorem equal_normal (q : Query) : q.equal q.normal = true := by
  simp only [equal, normal, Constraint.equal_normal, equal?_normal, Bool.and_self]

theorem rooted_normal (q : Query) : q.normal.rooted = q.rooted := by
  rw [rooted, parts_normal, List.all_map]
  exact congrArg (q.parts.all ·) (funext AnyConstraint.isPart_normal)

/-! ### The text -/

theorem renderParts_eq (layout : Layout) (q : Query) :
    q.renderParts layout = q.parts.map fun any => any.constraint.render layout 1 := by
  have part {c : Category} (tree : Option (Constraint c)) :
      (tree.map (·.render layout 1)).toList =
        (tree.map toAny).toList.map fun any => any.constraint.render layout 1 := by
    cases tree <;> rfl
  simp only [renderParts, parts, part, List.map_cons, List.map_append]
  rfl

/-- The compact text of a query is its keyword with its parts in brackets. -/
theorem text_eq (q : Query) :
    q.text = keyword.toList ++ Layout.flat (q.parts.map AnyConstraint.text) := by
  have part : (fun any : AnyConstraint => any.constraint.render .compact 1) =
      AnyConstraint.text := funext fun any => any.constraint.render_compact 1
  rw [text, render, renderParts_eq, part, Constraint.nested_compact]

theorem length_text (q : Query) : q.text.length = q.normal.text.length + q.negativeZeros := by
  have each := Constraint.sum_map_add fun any (_ : any ∈ q.parts) => any.length_text
  simp only [text_eq, parts_normal, negativeZeros, List.length_append, Constraint.length_flat,
    List.map_map, List.length_map, Function.comp_def] at *
  omega

theorem text_normal {q : Query} (h : q.negativeZeros = 0) : q.normal.text = q.text := by
  rw [negativeZeros, List.sum_eq_zero_iff_forall_eq_nat] at h
  have each : (q.parts.map AnyConstraint.normal).map AnyConstraint.text =
      q.parts.map AnyConstraint.text := by
    rw [List.map_map]
    apply List.map_congr_left
    intro any ha
    exact AnyConstraint.text_normal (h _ (List.mem_map_of_mem ha))
  rw [text_eq, text_eq, parts_normal, each]

/-- The text stays the same exactly if no sign of a zero gets lost. -/
theorem text_normal_iff (q : Query) : q.normal.text = q.text ↔ q.negativeZeros = 0 :=
  eq_iff_nothing_extra q.length_text text_normal

/-! ### Building -/

theorem toOption_checkRoot {c : Category} (expected : Kind c) (tree : Option (Constraint c))
    (root : ∀ tree : Constraint c, tree.toAny.isPart = (tree.kind = expected : Bool)) :
    (checkRoot expected tree).toOption =
      if (tree.map toAny).toList.all AnyConstraint.isPart then some () else none := by
  cases tree with
  | none => rfl
  | some tree =>
    have part : ((some tree).map toAny).toList.all AnyConstraint.isPart =
        (tree.kind = expected : Bool) := by
      simp [root]
    rw [part, checkRoot]
    by_cases h : tree.kind = expected
    · rw [if_pos h, if_pos (decide_eq_true h)]
      rfl
    · rw [if_neg h, if_neg (by simpa using h)]
      rfl

/-- Parts make a query exactly if they may be its parts. -/
theorem toOption_create (q : Query) : (create q.head q.filterBy q.orderBy q.require).toOption =
    if q.rooted then some q else none := by
  have filterBy := toOption_checkRoot .filterBy q.filterBy fun _ => rfl
  have orderBy := toOption_checkRoot .orderBy q.orderBy fun _ => rfl
  have require := toOption_checkRoot .require q.require fun _ => rfl
  simp only [create, Outcome.toOption_bind, filterBy, orderBy, require, rooted_eq]
  generalize (q.filterBy.map toAny).toList.all AnyConstraint.isPart = first
  generalize (q.orderBy.map toAny).toList.all AnyConstraint.isPart = second
  generalize (q.require.map toAny).toList.all AnyConstraint.isPart = third
  cases first <;> cases second <;> cases third <;> rfl

end Query
end CatalogQuery
