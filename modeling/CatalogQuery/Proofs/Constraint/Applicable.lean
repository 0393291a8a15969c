import CatalogQuery.Proofs.Constraint.Acceptance

namespace CatalogQuery

namespace Shape

/-- How many literals arguments of a shape have at least. -/
def leastLiterals : Shape → Nat
  | .nameWithBetweenValues => 3
  | .nameWithValue | .nameWithValueList | .betweenValues | .valueWithNameList
  | .entityTypeWithValueList => 2
  | .name | .value | .valueList | .nameList | .entityTypeWithFilter | .entityTypeWithOrderList
  | .entityTypeWithRequireList | .entityTypesWithRequireList | .hierarchyWithin => 1
  | .empty | .filterList | .singleFilter | .orderList | .requireList | .hierarchyWithinRoot => 0

def wantsNested : Shape → Bool
  | .entityTypeWithFilter | .entityTypeWithOrderList | .entityTypeWithRequireList
  | .filterList | .singleFilter | .orderList | .requireList => true
  | _ => false

def literalCount (slots : List Slot) : Nat := slots.countP Slot.isValue

def HasNested (slots : List Slot) : Prop := ∃ slot ∈ slots, slot.isValue = false

section
variable {first test : Slot → Bool} {tail : List Slot → Bool} {slots : List Slot} {least : Nat}

theorem literalCount_cons {slot : Slot} (value : slot.isValue = true) (rest : List Slot) :
    literalCount (slot :: rest) = literalCount rest + 1 :=
  List.countP_cons_of_pos value

theorem least_one (within : Within test true) (h : one test slots = true) :
    1 ≤ literalCount slots := by
  unfold one at h
  split at h
  · rw [literalCount_cons (within _ h)]
    exact Nat.le_add_left 1 _
  · cases h

theorem least_many (within : Within test true) (h : many test slots = true) :
    1 ≤ literalCount slots := by
  rw [many, Bool.and_eq_true] at h
  cases slots with
  | nil => cases h.1
  | cons slot rest =>
    rw [literalCount_cons (within slot (List.all_eq_true.mp h.2 slot List.mem_cons_self))]
    exact Nat.le_add_left 1 _

theorem least_followedBy (within : Within first true)
    (htail : ∀ rest, tail rest = true → least ≤ literalCount rest)
    (h : followedBy first tail slots = true) : least + 1 ≤ literalCount slots := by
  obtain ⟨slot, rest, rfl, hslot, hrest⟩ := followedBy_parts h
  rw [literalCount_cons (within slot hslot)]
  exact Nat.succ_le_succ (htail rest hrest)

theorem least_two {second : Slot → Bool} (hfirst : Within first true) (hsecond : Within second true)
    (h : two first second slots = true) : 2 ≤ literalCount slots := by
  obtain ⟨a, b, rfl, ha, hb⟩ := two_parts h
  rw [literalCount_cons (hfirst a ha), literalCount_cons (hsecond b hb)]
  exact Nat.le_add_left 2 _

/-- Slots that start with literals have some. -/
theorem least_split (h : (splitLiterals slots).1 ≠ []) : 1 ≤ literalCount slots := by
  cases slots with
  | nil => exact absurd rfl h
  | cons slot rest =>
    by_cases value : slot.isValue = true
    · rw [literalCount_cons value]
      exact Nat.le_add_left 1 _
    · exact absurd (List.takeWhile_cons_of_neg value) h

theorem nested_many {category : Category} (h : many (Slot.isOf category) slots = true) :
    HasNested slots := by
  have within := many_within (within_isOf category) h
  cases slots with
  | nil => cases h
  | cons slot rest => exact ⟨slot, List.mem_cons_self, within slot List.mem_cons_self⟩

theorem nested_one {category : Category} (h : one (Slot.isOf category) slots = true) :
    HasNested slots := by
  have within := one_within (within_isOf category) h
  cases slots with
  | nil => cases h
  | cons slot rest => exact ⟨slot, List.mem_cons_self, within slot List.mem_cons_self⟩

theorem nested_followedBy {category : Category}
    (h : followedBy first (many (Slot.isOf category)) slots = true) : HasNested slots := by
  obtain ⟨slot, rest, rfl, -, hrest⟩ := followedBy_parts h
  obtain ⟨nested, hn, constraint⟩ := nested_many hrest
  exact ⟨nested, List.mem_cons_of_mem slot hn, constraint⟩

end

/-- Slots of a shape have the literals that the shape asks for at least. -/
theorem leastLiterals_le {shape : Shape} {slots : List Slot} (h : shape.fits slots = true) :
    shape.leastLiterals ≤ literalCount slots := by
  have value := within_isValue
  have name := within_isName
  cases shape with
  | name => exact least_one name h
  | nameWithValue => exact least_two name value h
  | nameWithValueList => exact least_followedBy name (fun _ => least_many value) h
  | nameWithBetweenValues => exact least_followedBy name (fun _ => least_two value value) h
  | value => exact least_one value h
  | valueList => exact least_many value h
  | betweenValues => exact least_two value value h
  | nameList => exact least_many name h
  | valueWithNameList => exact least_followedBy value (fun _ => least_many name) h
  | entityTypeWithValueList => exact least_followedBy value (fun _ => least_many value) h
  | entityTypeWithFilter =>
    obtain ⟨a, b, rfl, ha, -⟩ := two_parts h
    rw [literalCount_cons ha]
    exact Nat.le_add_left 1 _
  | entityTypeWithOrderList =>
    exact least_followedBy value (fun rest _ => Nat.zero_le (literalCount rest)) h
  | entityTypeWithRequireList =>
    exact least_followedBy value (fun rest _ => Nat.zero_le (literalCount rest)) h
  | entityTypesWithRequireList =>
    simp only [fits, Bool.and_eq_true] at h
    apply least_split
    intro none
    rw [none] at h
    cases h.1
  | hierarchyWithin =>
    simp only [fits, Bool.and_eq_true] at h
    apply least_split
    intro none
    rw [none] at h
    cases h.1
  | _ => exact Nat.zero_le _

/-- Slots of a shape that asks for nested constraints have one. -/
theorem hasNested_of_wantsNested {shape : Shape} (wants : shape.wantsNested = true)
    {slots : List Slot} (h : shape.fits slots = true) : HasNested slots := by
  cases shape with
  | entityTypeWithFilter =>
    obtain ⟨a, b, rfl, -, hb⟩ := two_parts h
    exact ⟨b, by simp, isValue_of_isOf hb⟩
  | entityTypeWithOrderList => exact nested_followedBy h
  | entityTypeWithRequireList => exact nested_followedBy h
  | filterList => exact nested_many h
  | singleFilter => exact nested_one h
  | orderList => exact nested_many h
  | requireList => exact nested_many h
  | _ => cases wants

variable (category : Category) (arguments : List Literal)

theorem literalCount_slotsOf (children : Nat) :
    literalCount (slotsOf category arguments children) = arguments.length := by
  have own : (arguments.map Slot.literal).countP Slot.isValue = arguments.length := by
    rw [List.countP_map]
    exact List.countP_eq_length.mpr fun _ _ => rfl
  have below : (List.replicate children (Slot.constraint category)).countP Slot.isValue = 0 := by
    rw [List.countP_replicate]
    rfl
  rw [literalCount, slotsOf, List.countP_append, own, below]
  rfl

theorem not_hasNested_slotsOf : ¬HasNested (slotsOf category arguments 0) := by
  rintro ⟨slot, hs, nested⟩
  rw [slotsOf, List.replicate_zero, List.append_nil] at hs
  obtain ⟨l, -, rfl⟩ := List.mem_map.mp hs
  cases nested

end Shape

variable {c : Category}

/-- The tables of the catalog agree: every shape of a kind asks for the literals and for
the nested constraints that the kind needs to be of use. -/
theorem Kind.shapes_suffice (kind : Kind c) : ∀ shape ∈ kind.shapes,
    kind.requiredArguments ≤ shape.leastLiterals ∧
      (kind.requiresChildren = true → shape.wantsNested = true) := by
  cases kind <;> decide

namespace Constraint

/-- **A constraint that fits a shape of its kind is applicable.** -/
theorem isApplicable_of_fits {kind : Kind c} {arguments : List Literal}
    {children : List (Constraint c)} (h : fitsKind (.node kind arguments children) = true) :
    isApplicable (.node kind arguments children) = true := by
  obtain ⟨shape, hshape, fits⟩ := List.any_eq_true.mp h
  obtain ⟨enough, wants⟩ := kind.shapes_suffice shape hshape
  have literals : shape.leastLiterals ≤ arguments.length := by
    have least := Shape.leastLiterals_le fits
    rwa [Shape.literalCount_slotsOf] at least
  have nested : kind.requiresChildren = true → children ≠ [] := by
    rintro requires rfl
    exact Shape.not_hasNested_slotsOf _ _ (Shape.hasNested_of_wantsNested (wants requires) fits)
  have required : kind.requiredArguments ≤ arguments.length := enough.trans literals
  rw [isApplicable, Bool.and_eq_true, Bool.not_eq_true', decide_eq_true_iff]
  refine ⟨required, Bool.eq_false_iff.mpr ?_⟩
  rw [ne_eq, Bool.and_eq_true, List.isEmpty_iff]
  rintro ⟨requires, none⟩
  exact nested requires none

end Constraint
end CatalogQuery
