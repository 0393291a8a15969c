import CatalogQuery.Proofs.Constraint.Applicable

/-!
# Fewer children

A constraint that loses some of its children still fits a shape of its kind, as long as it
is applicable. A shape that wants a nested constraint is content with fewer, but not with
none. Of the kinds that are of use without children, each lists the shape that is then left.
-/

namespace CatalogQuery

namespace Shape

section
variable {slots more : List Slot} {test : Slot → Bool}

theorem hasNested_ne_nil (h : HasNested slots) : slots ≠ [] := by
  rintro rfl
  obtain ⟨slot, hs, -⟩ := h
  cases hs

theorem many_of_append (nonempty : slots ≠ []) (h : many test (slots ++ more) = true) :
    many test slots = true := by
  rw [many, List.all_append, Bool.and_eq_true, Bool.and_eq_true] at h
  rw [many, h.2.1, List.isEmpty_eq_false_iff.mpr nonempty]
  rfl

theorem one_of_append (nonempty : slots ≠ []) (h : one test (slots ++ more) = true) :
    one test slots = true := by
  match slots, more with
  | [], _ => exact absurd rfl nonempty
  | [_], [] => exact h
  | [_], _ :: _ => cases h
  | _ :: _ :: _, _ => cases h

/-- A literal alone is no nested constraint. -/
theorem tail_ne_nil_of_hasNested {slot : Slot} {rest : List Slot} (value : slot.isValue = true)
    (some : HasNested (slot :: rest)) : rest ≠ [] := by
  rintro rfl
  obtain ⟨other, ho, nested⟩ := some
  rw [List.mem_singleton.mp ho, value] at nested
  cases nested

theorem two_of_append {first : Slot → Bool} (within : Within first true) (some : HasNested slots)
    (h : two first test (slots ++ more) = true) : two first test slots = true := by
  obtain ⟨a, b, same, ha, -⟩ := two_parts h
  match slots with
  | [] => exact absurd rfl (hasNested_ne_nil some)
  | [slot] =>
    cases same
    exact absurd rfl (tail_ne_nil_of_hasNested (within _ ha) some)
  | slot :: other :: rest =>
    rw [List.cons_append, List.cons_append, List.cons.injEq, List.cons.injEq,
      List.append_eq_nil_iff] at same
    obtain ⟨-, -, -, rfl⟩ := same
    rwa [List.append_nil] at h

theorem append_eq_nil_of_values (nested : ∀ slot ∈ more, slot.isValue = false)
    (values : ∀ slot ∈ slots ++ more, slot.isValue = true) : more = [] := by
  cases more with
  | nil => rfl
  | cons slot more =>
    have value := values slot (List.mem_append_right _ List.mem_cons_self)
    rw [nested slot List.mem_cons_self] at value
    cases value

theorem followedBy_of_append {first : Slot → Bool} (within : Within first true)
    (some : HasNested slots) (h : followedBy first (many test) (slots ++ more) = true) :
    followedBy first (many test) slots = true := by
  cases slots with
  | nil => exact absurd rfl (hasNested_ne_nil some)
  | cons slot rest =>
    rw [List.cons_append, followedBy, Bool.and_eq_true] at h
    obtain ⟨hfirst, hrest⟩ := h
    have nonempty := tail_ne_nil_of_hasNested (within slot hfirst) some
    rw [followedBy, hfirst, many_of_append nonempty hrest]
    rfl

/-- Nested constraints at the end stand after the literals a list starts with. -/
theorem splitLiterals_append (nested : ∀ slot ∈ more, slot.isValue = false) :
    splitLiterals (slots ++ more) = ((splitLiterals slots).1, (splitLiterals slots).2 ++ more) := by
  have none : more.takeWhile Slot.isValue = [] ∧ more.dropWhile Slot.isValue = more := by
    cases more with
    | nil => exact ⟨rfl, rfl⟩
    | cons slot more =>
      have stop : ¬slot.isValue = true := by simp [nested slot List.mem_cons_self]
      exact ⟨List.takeWhile_cons_of_neg stop, List.dropWhile_cons_of_neg stop⟩
  induction slots with
  | nil => simp only [splitLiterals, List.nil_append, none, List.takeWhile_nil, List.dropWhile_nil]
  | cons slot slots ih =>
    simp only [splitLiterals, Prod.mk.injEq] at ih
    by_cases value : slot.isValue = true
    · simp only [splitLiterals, List.cons_append, List.takeWhile_cons_of_pos value,
        List.dropWhile_cons_of_pos value, ih]
    · simp only [splitLiterals, List.cons_append, List.takeWhile_cons_of_neg value,
        List.dropWhile_cons_of_neg value]

/-- **A shape is content with fewer nested constraints**, unless it wants one and there is
none. -/
theorem fits_of_append {shape : Shape} (nested : ∀ slot ∈ more, slot.isValue = false)
    (some : shape.wantsNested = true → HasNested slots) (h : shape.fits (slots ++ more) = true) :
    shape.fits slots = true := by
  cases shape with
  | filterList => exact many_of_append (hasNested_ne_nil (some rfl)) h
  | orderList => exact many_of_append (hasNested_ne_nil (some rfl)) h
  | requireList => exact many_of_append (hasNested_ne_nil (some rfl)) h
  | entityTypeWithOrderList => exact followedBy_of_append within_isValue (some rfl) h
  | entityTypeWithRequireList => exact followedBy_of_append within_isValue (some rfl) h
  | singleFilter => exact one_of_append (hasNested_ne_nil (some rfl)) h
  | entityTypeWithFilter => exact two_of_append within_isValue (some rfl) h
  | entityTypesWithRequireList =>
    simp only [fits, splitLiterals_append nested, List.all_append, Bool.and_eq_true] at h ⊢
    exact ⟨h.1, h.2.1⟩
  | hierarchyWithin =>
    simp only [fits, splitLiterals_append nested, List.all_append, Bool.and_eq_true] at h ⊢
    exact ⟨h.1, h.2.1⟩
  | hierarchyWithinRoot =>
    simp only [fits, splitLiterals_append nested, List.all_append, Bool.and_eq_true] at h ⊢
    exact ⟨h.1, h.2.1⟩
  | _ =>
    rw [append_eq_nil_of_values nested (isValue_of_isFlat rfl h), List.append_nil] at h
    exact h

end

/-- The shape that is left of one when no nested constraint is there. -/
def bare : Shape → Shape
  | .entityTypeWithFilter | .entityTypeWithOrderList | .entityTypeWithRequireList => .value
  | .filterList | .singleFilter | .orderList | .requireList => .empty
  | shape => shape

theorem filter_of_nested {slots : List Slot} (h : ∀ slot ∈ slots, slot.isValue = false) :
    slots.filter Slot.isValue = [] := by
  rw [List.filter_eq_nil_iff]
  intro slot hs
  rw [h slot hs]
  exact Bool.false_ne_true

/-- The literals of slots that want a nested constraint have the bare shape. -/
theorem fits_bare {shape : Shape} (wants : shape.wantsNested = true) {slots : List Slot}
    (h : shape.fits slots = true) : shape.bare.fits (slots.filter Slot.isValue) = true := by
  have list {category : Category} (h : many (Slot.isOf category) slots = true) :
      empty.fits (slots.filter Slot.isValue) = true := by
    rw [filter_of_nested (many_within (within_isOf category) h)]
    rfl
  have named {category : Category}
      (h : followedBy Slot.isValue (many (Slot.isOf category)) slots = true) :
      value.fits (slots.filter Slot.isValue) = true := by
    obtain ⟨slot, rest, rfl, literal, hrest⟩ := followedBy_parts h
    rw [List.filter_cons_of_pos literal,
      filter_of_nested (many_within (within_isOf category) hrest)]
    exact literal
  cases shape with
  | filterList => exact list h
  | orderList => exact list h
  | requireList => exact list h
  | entityTypeWithOrderList => exact named h
  | entityTypeWithRequireList => exact named h
  | singleFilter =>
    rw [filter_of_nested (one_within (within_isOf _) h)]
    rfl
  | entityTypeWithFilter =>
    obtain ⟨a, b, rfl, literal, nested⟩ := two_parts h
    have none : ¬b.isValue = true := by simp [isValue_of_isOf nested]
    rw [List.filter_cons_of_pos literal, List.filter_cons_of_neg none]
    exact literal
  | _ => cases wants

section
variable (category : Category) (arguments : List Literal)

theorem isValue_of_mem_replicate {number : Nat} :
    ∀ slot ∈ List.replicate number (Slot.constraint category), slot.isValue = false := by
  intro slot hs
  rw [List.eq_of_mem_replicate hs]
  rfl

theorem filter_slotsOf (children : Nat) :
    (slotsOf category arguments children).filter Slot.isValue = slotsOf category arguments 0 := by
  have values : (arguments.map Slot.literal).filter Slot.isValue = arguments.map Slot.literal :=
    List.filter_eq_self.mpr (List.forall_mem_map.mpr fun _ _ => rfl)
  have nested : (List.replicate children (Slot.constraint category)).filter Slot.isValue = [] :=
    filter_of_nested (isValue_of_mem_replicate category)
  rw [slotsOf, slotsOf, List.filter_append, values, nested, List.replicate_zero]

theorem slotsOf_add (fewer more : Nat) : slotsOf category arguments (fewer + more) =
    slotsOf category arguments fewer ++ List.replicate more (.constraint category) := by
  rw [slotsOf, slotsOf, List.append_assoc, List.replicate_append_replicate]

theorem hasNested_slotsOf {children : Nat} (some : 0 < children) :
    HasNested (slotsOf category arguments children) :=
  ⟨.constraint category, List.mem_append_right _ (List.mem_replicate.mpr ⟨some.ne', rfl⟩), rfl⟩

end

end Shape

variable {c : Category}

/-- The catalog lists the bare shape of each shape of a kind that needs no children. -/
theorem Kind.bare_mem_shapes (kind : Kind c) (h : kind.requiresChildren = false) :
    ∀ shape ∈ kind.shapes, shape.wantsNested = true → shape.bare ∈ kind.shapes := by
  cases kind <;> revert h <;> decide

/-- **A constraint that loses children fits a shape of its kind while it is applicable.** -/
theorem Constraint.fitsKind_of_fewer {kind : Kind c} {arguments : List Literal}
    {children fewer : List (Constraint c)} (le : fewer.length ≤ children.length)
    (applicable : isApplicable (.node kind arguments fewer) = true)
    (h : fitsKind (.node kind arguments children) = true) :
    fitsKind (.node kind arguments fewer) = true := by
  obtain ⟨shape, hshape, fits⟩ := List.any_eq_true.mp h
  apply List.any_eq_true.mpr
  by_cases gone : shape.wantsNested = true ∧ fewer = []
  · -- The shape wants what is gone, so the catalog has to list its bare shape.
    obtain ⟨wants, rfl⟩ := gone
    have needless : kind.requiresChildren = false := by
      rw [isApplicable, Bool.and_eq_true, Bool.not_eq_true'] at applicable
      simpa [Constraint.kind, Constraint.children] using applicable.2
    have bare := Shape.fits_bare wants fits
    rw [Shape.filter_slotsOf] at bare
    exact ⟨_, kind.bare_mem_shapes needless shape hshape wants, bare⟩
  · obtain ⟨lost, count⟩ := Nat.exists_eq_add_of_le le
    rw [Shape.fitsParts, count, Shape.slotsOf_add] at fits
    have nested : ∀ slot ∈ List.replicate lost (Slot.constraint c), slot.isValue = false :=
      Shape.isValue_of_mem_replicate c
    refine ⟨shape, hshape, Shape.fits_of_append nested (fun wants => ?_) fits⟩
    apply Shape.hasNested_slotsOf
    exact List.length_pos_of_ne_nil fun none => gone ⟨wants, none⟩

end CatalogQuery
