import CatalogQuery.Constraint.Construction

namespace CatalogQuery

/-- The parts of a constraint to be. -/
structure Recipe (c : Category) where
  kind : Kind c
  /-- The literals in front, all of them needed. -/
  needed : List (Option Literal) := []
  /-- The literals that follow, as far as they are there. -/
  values : List (Option Literal) := []
  /-- Whether one of the literals that follow is needed. -/
  needsValue : Bool := false
  /-- The nested constraints, as far as they are there. -/
  children : List (Option (Constraint c)) := []
  /-- Whether one of the nested constraints is needed. -/
  needsChild : Bool := false

/-- The parts that are there, in their order. -/
def present {α : Type} (parts : List (Option α)) : List α := parts.filterMap id

/-- All parts, unless one is missing. -/
def allPresent? {α : Type} : List (Option α) → Option (List α)
  | [] => some []
  | none :: _ => none
  | some first :: rest => (allPresent? rest).map (first :: ·)

/-- Whether parts are needed and none is there. -/
def isBare {α : Type} (isNeeded : Bool) (parts : List (Option α)) : Bool :=
  isNeeded && (present parts).isEmpty

/-- All parts are there exactly if every one is. -/
theorem allPresent?_isSome {α : Type} (parts : List (Option α)) :
    (allPresent? parts).isSome = parts.all Option.isSome := by
  induction parts with
  | nil => rfl
  | cons first rest ih => cases first <;> simp [allPresent?, ih]

/-- The parts that are all there are the parts that are there. -/
theorem allPresent?_eq_present {α : Type} {parts : List (Option α)} {found : List α}
    (h : allPresent? parts = some found) : found = present parts := by
  induction parts generalizing found with
  | nil => simpa [allPresent?, present] using h.symm
  | cons first rest ih =>
    cases first with
    | none => simp [allPresent?] at h
    | some value =>
      obtain ⟨others, hr, rfl⟩ := Option.map_eq_some_iff.1 h
      simp [present, ih hr]

/-- The constraint that a recipe makes, unless a needed part is missing. -/
def Recipe.make? {c : Category} (recipe : Recipe c) : Option (Constraint c) :=
  match allPresent? recipe.needed with
  | none => none
  | some needed =>
    if isBare recipe.needsValue recipe.values || isBare recipe.needsChild recipe.children then none
    else some (.node recipe.kind (needed ++ present recipe.values) (present recipe.children))

end CatalogQuery
