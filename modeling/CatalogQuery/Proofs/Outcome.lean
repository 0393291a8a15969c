import CatalogQuery.Json.Decode
import Mathlib.Data.List.Forall2

/-!
# Outcomes of readers

A reader gives a value or says why there is none. These are the laws by which a
sequence of readings is taken apart, when only success matters (`bind_eq_ok`,
`map_eq_ok`) and when failure is kept as the absence of a value (`toOption_bind`). A list
is read member by member (`mapM_eq_ok`).
-/

namespace CatalogQuery.Outcome

variable {ε ε' α β : Type}

theorem bind_eq_ok {x : Except ε α} {f : α → Except ε β} {b : β} :
    (x >>= f) = .ok b ↔ ∃ a, x = .ok a ∧ f a = .ok b := by
  constructor
  · intro h
    cases x with
    | error e => cases h
    | ok a => exact ⟨a, rfl, h⟩
  · rintro ⟨a, rfl, h⟩
    exact h

theorem bind_eq_error {x : Except ε α} {f : α → Except ε β} {e : ε} :
    (x >>= f) = .error e ↔ x = .error e ∨ ∃ a, x = .ok a ∧ f a = .error e := by
  cases x with
  | error e' =>
    constructor
    · rintro ⟨⟩
      exact .inl rfl
    · rintro (⟨⟨⟩⟩ | ⟨a, ⟨⟩, -⟩)
      rfl
  | ok a =>
    constructor
    · intro h
      exact .inr ⟨a, rfl, h⟩
    · rintro (⟨⟨⟩⟩ | ⟨_, ⟨⟩, h⟩)
      exact h

theorem map_eq_ok {x : Except ε α} {f : α → β} {b : β} :
    x.map f = .ok b ↔ ∃ a, x = .ok a ∧ f a = b := by
  cases x <;> simp [Except.map]

/-- A reading that succeeds goes on with its value. -/
theorem bind_of_ok {x : Except ε α} {a : α} {f : α → Except ε β} {r : Except ε β} (h : x = .ok a)
    (next : f a = r) : (x >>= f) = r := by
  rw [h]
  exact next

/-- What follows a reading matters only where the reading succeeds. -/
theorem bind_congr {x : Except ε α} {f g : α → Except ε β} (h : ∀ a, x = .ok a → f a = g a) :
    (x >>= f) = (x >>= g) := by
  cases x with
  | error e => rfl
  | ok a => exact h a rfl

@[simp] theorem toOption_ok (a : α) : (Except.ok a : Except ε α).toOption = some a := rfl

@[simp] theorem toOption_error (e : ε) : (Except.error e : Except ε α).toOption = none := rfl

theorem toOption_eq_some {x : Except ε α} {a : α} : x.toOption = some a ↔ x = .ok a := by
  cases x <;> simp

theorem toOption_eq_none {x : Except ε α} : x.toOption = none ↔ ∃ e, x = .error e := by
  cases x <;> simp

/-- A value of which only a property was computed. -/
theorem toOption_map_eq_some {x : Except ε α} {f : α → β} {b : β} :
    x.toOption.map f = some b ↔ ∃ a, x = .ok a ∧ f a = b := by
  simp only [Option.map_eq_some_iff, toOption_eq_some]

/-- An outcome that is known but for its error. -/
theorem eq_ok_iff {x : Except ε α} {p : Prop} [Decidable p] {a b : α}
    (h : x.toOption = if p then some a else none) : x = .ok b ↔ p ∧ a = b := by
  rw [← toOption_eq_some, h, Option.ite_none_right_eq_some, Option.some.injEq]

theorem eq_error_iff {x : Except ε α} {p : Prop} [Decidable p] {a : α}
    (h : x.toOption = if p then some a else none) : (∃ e, x = .error e) ↔ ¬p := by
  rw [← toOption_eq_none, h]
  by_cases hp : p
  · simp [hp]
  · simp [hp]

theorem ok_or_error {x : Except ε α} {a : α} {condition : Bool} {P : α → Prop}
    (h : x.toOption = if condition then some a else none) (ha : P a) :
    (condition = true → ∃ b, x = .ok b ∧ P b) ∧ (condition = false → ∃ e, x = .error e) := by
  constructor
  · intro holds
    exact ⟨a, (eq_ok_iff h).mpr ⟨holds, rfl⟩, ha⟩
  · intro fails
    exact (eq_error_iff h).mpr (Bool.eq_false_iff.mp fails)

theorem toOption_bind (x : Except ε α) (f : α → Except ε β) :
    (x >>= f).toOption = x.toOption.bind fun a => (f a).toOption := by
  cases x <;> rfl

theorem toOption_map (x : Except ε α) (f : α → β) :
    (x.map f).toOption = x.toOption.map f := by
  cases x <;> rfl

/-! ### Lists -/

theorem mapM_eq_ok {f : α → Except ε β} {as : List α} {bs : List β} :
    as.mapM f = .ok bs ↔ List.Forall₂ (fun a b => f a = .ok b) as bs := by
  induction as generalizing bs with
  | nil =>
    rw [List.mapM_nil]
    constructor
    · rintro ⟨⟩
      exact .nil
    · rintro ⟨⟩
      rfl
  | cons a as ih =>
    rw [List.mapM_cons, bind_eq_ok]
    constructor
    · rintro ⟨b, first, h⟩
      obtain ⟨bs, others, same⟩ := bind_eq_ok.mp h
      cases same
      exact .cons first (ih.mp others)
    · intro h
      cases h with
      | cons first others => exact ⟨_, first, bind_of_ok (ih.mpr others) rfl⟩

/-- What is made of a list is made of its members, each of which something is made of. -/
theorem mem_of_mapM {f : α → Except ε β} {as : List α} {bs : List β} (h : as.mapM f = .ok bs) :
    (∀ a ∈ as, ∃ b ∈ bs, f a = .ok b) ∧ ∀ b ∈ bs, ∃ a ∈ as, f a = .ok b := by
  rw [mapM_eq_ok] at h
  induction h with
  | nil => simp
  | cons first _ ih =>
    constructor
    · intro a ha
      rcases List.mem_cons.mp ha with rfl | ha
      · exact ⟨_, List.mem_cons_self, first⟩
      · obtain ⟨b, hb, made⟩ := ih.1 a ha
        exact ⟨b, List.mem_cons_of_mem _ hb, made⟩
    · intro b hb
      rcases List.mem_cons.mp hb with rfl | hb
      · exact ⟨_, List.mem_cons_self, first⟩
      · obtain ⟨a, ha, made⟩ := ih.2 b hb
        exact ⟨a, List.mem_cons_of_mem _ ha, made⟩

/-- Each member of a list has a counterpart by two relations that pair the same lists. -/
theorem exists_of_forall₂ {R S : α → β → Prop} {as : List α} {bs : List β}
    (h : List.Forall₂ R as bs) (h' : List.Forall₂ S as bs) : ∀ a ∈ as, ∃ b, R a b ∧ S a b := by
  induction h with
  | nil =>
    intro a ha
    cases ha
  | cons first _ ih =>
    cases h' with
    | cons first' others' => exact List.forall_mem_cons.mpr ⟨⟨_, first, first'⟩, ih others'⟩

end CatalogQuery.Outcome

namespace CatalogQuery

open Json (DecodeError wanted accepted keepIf mapCause)

theorem wanted_eq_ok {ε α : Type} {value : Option α} {a : α} :
    (wanted value : Except (DecodeError ε) α) = .ok a ↔ value = some a := by
  cases value <;> simp [wanted]

theorem mapCause_eq_ok {ε ε' α : Type} {f : ε → ε'} {x : Except (DecodeError ε) α} {a : α} :
    mapCause f x = .ok a ↔ x = .ok a := by
  cases x with
  | ok b => simp [mapCause]
  | error e => cases e <;> simp [mapCause]

theorem accepted_eq_ok {ε α : Type} {x : Except ε α} {a : α} :
    (accepted x = .ok a) ↔ x = .ok a := by
  cases x <;> simp [accepted]

theorem keepIf_eq_ok {ε α : Type} {condition : Bool} {value a : α} :
    (keepIf condition value : Except (DecodeError ε) α) = .ok a ↔ condition = true ∧ value = a := by
  cases condition <;> simp [keepIf]

end CatalogQuery
