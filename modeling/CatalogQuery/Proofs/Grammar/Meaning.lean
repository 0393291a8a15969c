import CatalogQuery.Grammar.Resolve
import CatalogQuery.Proofs.Constraint.Acceptance

namespace CatalogQuery.Grammar

open Constraint (written)

/-- A raw node is a literal, or a call with raw nodes below it. -/
@[elab_as_elim]
theorem RawNode.induct {motive : RawNode → Prop} (literal : ∀ value, motive (.literal value))
    (call : ∀ keyword source arguments, (∀ raw ∈ arguments, motive raw) →
      motive (.call keyword source arguments)) (raw : RawNode) : motive raw := by
  cases raw with
  | literal value => exact literal value
  | call keyword source arguments =>
    exact call keyword source arguments fun raw _ => induct literal call raw
termination_by raw

/-- What a raw node means, if it means anything. -/
def RawNode.meaning? (raw : RawNode) : Option Argument := (resolve [] raw).toOption

/-- The constraint that a keyword makes of arguments, if it makes one. -/
def built? (keyword : String) (arguments : List Argument) : Option AnyConstraint :=
  (buildCall ⟨[], []⟩ keyword arguments).toOption

/-! ### Places -/

theorem toOption_build {c : Category} (site site' : Site) (kind : Kind c)
    (arguments : List Argument) :
    (build site kind arguments).toOption = (build site' kind arguments).toOption := by
  unfold build
  split
  · split <;> rfl
  · rfl

theorem toOption_buildCall (site : Site) (keyword : String) (arguments : List Argument) :
    (buildCall site keyword arguments).toOption = built? keyword arguments := by
  unfold built? buildCall
  split
  · exact toOption_build _ _ _ _
  · split <;> rfl

theorem toOption_resolveAll (text : List Char) (raws : List RawNode) :
    (resolveAll text raws).toOption = raws.mapM fun raw => (resolve text raw).toOption := by
  induction raws with
  | nil => rfl
  | cons raw raws ih =>
    rw [resolveAll, Outcome.toOption_bind, List.mapM_cons]
    cases (resolve text raw).toOption with
    | none => rfl
    | some argument =>
      simp only [Option.bind_some, Outcome.toOption_bind, ih]
      cases raws.mapM fun raw => (resolve text raw).toOption <;> rfl

theorem toOption_resolve_call (text : List Char) (keyword : String) (source : List Char)
    (raws : List RawNode) : (resolve text (.call keyword source raws)).toOption =
      (raws.mapM fun raw => (resolve text raw).toOption).bind fun arguments =>
        (built? keyword arguments).map .constraint := by
  rw [resolve, Outcome.toOption_bind, toOption_resolveAll]
  simp only [Outcome.toOption_map, toOption_buildCall]

theorem mapM_congr {α β : Type} {f g : α → Option β} {as : List α} (h : ∀ a ∈ as, f a = g a) :
    as.mapM f = as.mapM g := by
  induction as with
  | nil => rfl
  | cons a as ih =>
    rw [List.mapM_cons, List.mapM_cons, h a List.mem_cons_self,
      ih fun a ha => h a (List.mem_cons_of_mem _ ha)]

theorem toOption_resolve (text : List Char) (raw : RawNode) :
    (resolve text raw).toOption = raw.meaning? := by
  induction raw using RawNode.induct with
  | literal value => rfl
  | call keyword source raws ih =>
    rw [RawNode.meaning?, toOption_resolve_call, toOption_resolve_call, mapM_congr ih]
    rfl

theorem meaning?_call (keyword : String) (source : List Char) (raws : List RawNode) :
    (RawNode.call keyword source raws).meaning? =
      (raws.mapM RawNode.meaning?).bind fun arguments =>
        (built? keyword arguments).map .constraint :=
  toOption_resolve_call [] keyword source raws

/-! ### Keywords -/

theorem lookup?_keyword {c : Category} (kind : Kind c) : lookup? kind.keyword = some ⟨c, kind⟩ := by
  cases kind <;> decide

section
variable {c : Category}

theorem keyword_ne_query (kind : Kind c) : kind.keyword ≠ Query.keyword := by
  cases kind <;> decide

/-- Arguments as written fit a shape of a kind exactly if the constraint does. -/
theorem fitsArguments_written (kind : Kind c) (arguments : List Literal)
    (children : List (Constraint c)) :
    kind.shapes.any (·.fitsArguments (written arguments children)) =
      Constraint.fitsKind (.node kind arguments children) := by
  simp only [Shape.fitsArguments, Constraint.slots_written]
  rfl

theorem toOption_build_written (site : Site) (kind : Kind c) (arguments : List Literal)
    (children : List (Constraint c)) :
    (build site kind (written arguments children)).toOption =
      if Constraint.fitsKind (.node kind arguments children) then
        some (Constraint.node kind arguments children).toAny
      else none := by
  rw [build, fitsArguments_written]
  by_cases h : Constraint.fitsKind (.node kind arguments children) = true
  · rw [if_pos h, if_pos h,
      Constraint.ofArguments_written (Constraint.isContainer_of_fits h)]
    rfl
  · rw [if_neg h, if_neg h]
    rfl

/-- **The grammar accepts what fits.** The keyword of a kind makes a constraint of
literals and children exactly if they fit a shape of the kind. -/
theorem built?_written (kind : Kind c) (arguments : List Literal)
    (children : List (Constraint c)) :
    built? kind.keyword (written arguments children) =
      if Constraint.fitsKind (.node kind arguments children) then
        some (Constraint.node kind arguments children).toAny
      else none := by
  rw [built?, buildCall, lookup?_keyword]
  exact toOption_build_written _ _ _ _

end

/-- What a keyword makes of arguments is made of them and fits. -/
theorem built?_eq_some {keyword : String} {arguments : List Argument} {any : AnyConstraint}
    (h : built? keyword arguments = some any) :
    ∃ (c : Category) (kind : Kind c) (literals : List Literal) (children : List (Constraint c)),
      arguments = written literals children ∧
        any = (Constraint.node kind literals children).toAny ∧
        Constraint.fitsKind (.node kind literals children) = true := by
  rw [built?, Outcome.toOption_eq_some, buildCall] at h
  split at h
  · rename_i c kind found
    unfold build at h
    split at h
    · rename_i fits
      split at h
      · rename_i tree made
        cases h
        obtain ⟨shape, -, hshape⟩ := List.any_eq_true.mp fits
        obtain ⟨literals, children, rfl, rfl⟩ :=
          Constraint.ofArguments_eq_ok (Shape.ordered_of_fits hshape) made
        rw [fitsArguments_written] at fits
        exact ⟨c, kind, literals, children, rfl, rfl, fits⟩
      · cases h
    · cases h
  · split at h <;> cases h

end CatalogQuery.Grammar
