import CatalogQuery.Constraint.Construction
import CatalogQuery.Proofs.Constraint.Normal
import CatalogQuery.Proofs.Outcome

/-!
# Which constraints are accepted

A constraint is checked when it is built from literals and children, and again when it
is built from arguments as written. Both look for a shape of the kind that the
arguments have, and both accept the same constraints.
-/

namespace CatalogQuery

namespace Shape

/-- A list of slots in which no literal comes after a nested constraint. -/
def Ordered (slots : List Slot) : Prop :=
  ∀ slot ∈ slots.dropWhile Slot.isValue, slot.isValue = false

theorem ordered_cons {slot : Slot} {slots : List Slot} (value : slot.isValue = true)
    (h : Ordered slots) : Ordered (slot :: slots) := by
  rwa [Ordered, List.dropWhile_cons_of_pos value]

theorem ordered_of_values {slots : List Slot} (h : ∀ slot ∈ slots, slot.isValue = true) :
    Ordered slots := by
  induction slots with
  | nil =>
    intro slot hs
    cases hs
  | cons slot slots ih =>
    apply ordered_cons (h slot List.mem_cons_self)
    apply ih
    intro s hs
    exact h s (List.mem_cons_of_mem _ hs)

theorem ordered_of_constraints {slots : List Slot} (h : ∀ slot ∈ slots, slot.isValue = false) :
    Ordered slots :=
  fun slot hs => h slot (List.dropWhile_subset _ hs)

theorem isValue_of_isName {slot : Slot} (h : slot.isName = true) : slot.isValue = true := by
  cases slot with
  | literal value => rfl
  | constraint category => cases h

theorem isValue_of_isOf {category : Category} {slot : Slot} (h : slot.isOf category = true) :
    slot.isValue = false := by
  cases slot with
  | literal value => cases h
  | constraint category => rfl

/-- A test that a class of slots passes only. -/
def Within (test : Slot → Bool) (value : Bool) : Prop :=
  ∀ slot, test slot = true → slot.isValue = value

theorem within_isValue : Within Slot.isValue true := fun _ h => h

theorem within_isName : Within Slot.isName true := fun _ h => isValue_of_isName h

theorem within_isOf (category : Category) : Within (Slot.isOf category) false :=
  fun _ h => isValue_of_isOf h

section
variable {first second test : Slot → Bool} {value : Bool} {slots : List Slot}

theorem many_within (within : Within test value) (h : many test slots = true) :
    ∀ slot ∈ slots, slot.isValue = value := by
  rw [many, Bool.and_eq_true] at h
  intro slot hs
  exact within slot (List.all_eq_true.mp h.2 slot hs)

theorem one_within (within : Within test value) (h : one test slots = true) :
    ∀ slot ∈ slots, slot.isValue = value := by
  unfold one at h
  split at h
  · simpa using within _ h
  · cases h

theorem two_parts (h : two first second slots = true) :
    ∃ a b, slots = [a, b] ∧ first a = true ∧ second b = true := by
  unfold two at h
  split at h
  · rw [Bool.and_eq_true] at h
    exact ⟨_, _, rfl, h⟩
  · cases h

theorem two_within (hfirst : Within first value) (hsecond : Within second value)
    (h : two first second slots = true) : ∀ slot ∈ slots, slot.isValue = value := by
  obtain ⟨a, b, rfl, ha, hb⟩ := two_parts h
  simpa using ⟨hfirst a ha, hsecond b hb⟩

theorem followedBy_parts {tail : List Slot → Bool} (h : followedBy first tail slots = true) :
    ∃ slot rest, slots = slot :: rest ∧ first slot = true ∧ tail rest = true := by
  cases slots with
  | nil => cases h
  | cons slot rest =>
    rw [followedBy, Bool.and_eq_true] at h
    exact ⟨slot, rest, rfl, h⟩

theorem followedBy_within {tail : List Slot → Bool} (hfirst : Within first value)
    (htail : ∀ rest, tail rest = true → ∀ slot ∈ rest, slot.isValue = value)
    (h : followedBy first tail slots = true) : ∀ slot ∈ slots, slot.isValue = value := by
  obtain ⟨slot, rest, rfl, hslot, hrest⟩ := followedBy_parts h
  intro s hs
  rcases List.mem_cons.mp hs with rfl | hs
  · exact hfirst s hslot
  · exact htail rest hrest s hs

theorem ordered_followedBy {category : Category}
    (h : followedBy Slot.isValue (many (Slot.isOf category)) slots = true) : Ordered slots := by
  obtain ⟨slot, rest, rfl, hslot, hrest⟩ := followedBy_parts h
  exact ordered_cons hslot (ordered_of_constraints (many_within (within_isOf category) hrest))

theorem ordered_split {category : Category}
    (h : (splitLiterals slots).2.all (Slot.isOf category) = true) : Ordered slots := by
  intro slot hs
  exact isValue_of_isOf (List.all_eq_true.mp h slot hs)

end

def isFlat : Shape → Bool
  | .entityTypeWithFilter | .entityTypeWithOrderList | .entityTypeWithRequireList
  | .entityTypesWithRequireList | .filterList | .singleFilter | .orderList | .requireList
  | .hierarchyWithin | .hierarchyWithinRoot => false
  | _ => true

theorem isValue_of_isFlat {shape : Shape} (flat : shape.isFlat = true) {slots : List Slot}
    (h : shape.fits slots = true) : ∀ slot ∈ slots, slot.isValue = true := by
  have value := within_isValue
  have name := within_isName
  cases shape with
  | empty =>
    rw [fits, List.isEmpty_iff] at h
    simp [h]
  | name => exact one_within name h
  | nameWithValue => exact two_within name value h
  | nameWithValueList => exact followedBy_within name (fun _ => many_within value) h
  | nameWithBetweenValues => exact followedBy_within name (fun _ => two_within value value) h
  | value => exact one_within value h
  | valueList => exact many_within value h
  | betweenValues => exact two_within value value h
  | nameList => exact many_within name h
  | valueWithNameList => exact followedBy_within value (fun _ => many_within name) h
  | entityTypeWithValueList => exact followedBy_within value (fun _ => many_within value) h
  | _ => cases flat

/-- In every shape the literals come first. -/
theorem ordered_of_fits {shape : Shape} {slots : List Slot} (h : shape.fits slots = true) :
    Ordered slots := by
  cases shape with
  | entityTypeWithFilter =>
    obtain ⟨a, b, rfl, ha, hb⟩ := two_parts h
    exact ordered_cons ha (ordered_of_constraints (by simpa using isValue_of_isOf hb))
  | entityTypeWithOrderList => exact ordered_followedBy h
  | entityTypeWithRequireList => exact ordered_followedBy h
  | entityTypesWithRequireList =>
    simp only [fits, Bool.and_eq_true] at h
    exact ordered_split h.2
  | filterList => exact ordered_of_constraints (many_within (within_isOf _) h)
  | singleFilter => exact ordered_of_constraints (one_within (within_isOf _) h)
  | orderList => exact ordered_of_constraints (many_within (within_isOf _) h)
  | requireList => exact ordered_of_constraints (many_within (within_isOf _) h)
  | hierarchyWithin =>
    simp only [fits, Bool.and_eq_true] at h
    exact ordered_split h.2
  | hierarchyWithinRoot =>
    simp only [fits, Bool.and_eq_true] at h
    exact ordered_split h.2
  | _ => exact ordered_of_values (isValue_of_isFlat rfl h)

/-! ### Slots of the same classes -/

/-- A change of literals that no shape can see. -/
structure Unseen (f : Slot → Slot) : Prop where
  value : ∀ slot, (f slot).isValue = slot.isValue
  name : ∀ slot, (f slot).isName = slot.isName
  int : ∀ slot, (f slot).isInt = slot.isInt
  nested : ∀ category slot, (f slot).isOf category = slot.isOf category

section
variable {f : Slot → Slot} {first second test : Slot → Bool} {tail : List Slot → Bool}

theorem one_map (h : ∀ slot, test (f slot) = test slot) (slots : List Slot) :
    one test (slots.map f) = one test slots := by
  match slots with
  | [] => rfl
  | [a] => exact h a
  | _ :: _ :: _ => rfl

theorem two_map (hfirst : ∀ slot, first (f slot) = first slot)
    (hsecond : ∀ slot, second (f slot) = second slot) (slots : List Slot) :
    two first second (slots.map f) = two first second slots := by
  match slots with
  | [] => rfl
  | [_] => rfl
  | [a, b] => simp only [List.map_cons, List.map_nil, two, hfirst, hsecond]
  | _ :: _ :: _ :: _ => rfl

theorem all_map (h : ∀ slot, test (f slot) = test slot) (slots : List Slot) :
    (slots.map f).all test = slots.all test := by
  rw [List.all_map]
  exact congrArg (slots.all ·) (funext h)

theorem many_map (h : ∀ slot, test (f slot) = test slot) (slots : List Slot) :
    many test (slots.map f) = many test slots := by
  simp only [many, all_map h, List.isEmpty_map]

theorem followedBy_map (hfirst : ∀ slot, first (f slot) = first slot)
    (htail : ∀ slots : List Slot, tail (slots.map f) = tail slots) (slots : List Slot) :
    followedBy first tail (slots.map f) = followedBy first tail slots := by
  cases slots with
  | nil => rfl
  | cons slot rest => simp only [List.map_cons, followedBy, hfirst, htail]

theorem splitLiterals_map (h : Unseen f) (slots : List Slot) :
    splitLiterals (slots.map f) =
      ((splitLiterals slots).1.map f, (splitLiterals slots).2.map f) := by
  have same : Slot.isValue ∘ f = Slot.isValue := funext h.value
  simp only [splitLiterals, List.takeWhile_map, List.dropWhile_map, same]

theorem endsWithKey_map (h : Unseen f) (slots : List Slot) :
    endsWithKey (slots.map f) = endsWithKey slots := by
  match slots with
  | [] => rfl
  | [a] => exact h.int a
  | [_, b] => exact h.int b
  | _ :: _ :: _ :: _ => rfl

theorem fits_map (h : Unseen f) (shape : Shape) (slots : List Slot) :
    shape.fits (slots.map f) = shape.fits slots := by
  have value := h.value
  have name := h.name
  have nested := h.nested
  cases shape with
  | empty => exact List.isEmpty_map
  | name => exact one_map name slots
  | nameWithValue => exact two_map name value slots
  | nameWithValueList => exact followedBy_map name (many_map value) slots
  | nameWithBetweenValues => exact followedBy_map name (two_map value value) slots
  | value => exact one_map value slots
  | valueList => exact many_map value slots
  | betweenValues => exact two_map value value slots
  | nameList => exact many_map name slots
  | valueWithNameList => exact followedBy_map value (many_map name) slots
  | entityTypeWithValueList => exact followedBy_map value (many_map value) slots
  | entityTypeWithFilter => exact two_map value (nested _) slots
  | entityTypeWithOrderList => exact followedBy_map value (many_map (nested _)) slots
  | entityTypeWithRequireList => exact followedBy_map value (many_map (nested _)) slots
  | filterList => exact many_map (nested _) slots
  | singleFilter => exact one_map (nested _) slots
  | orderList => exact many_map (nested _) slots
  | requireList => exact many_map (nested _) slots
  | entityTypesWithRequireList =>
    simp only [fits, splitLiterals_map h, List.isEmpty_map, all_map (nested _)]
  | hierarchyWithin =>
    simp only [fits, splitLiterals_map h, endsWithKey_map h, all_map (nested _)]
  | hierarchyWithinRoot =>
    simp only [fits, splitLiterals_map h, List.length_map, all_map (nested _)]

end

/-- The slot of a changed literal; a nested constraint stays as it is. -/
def mapSlot (f : Literal → Literal) : Slot → Slot
  | .literal l => .literal (f l)
  | .constraint category => .constraint category

theorem isName_literal (l : Literal) : (Slot.literal l).isName = decide (l.kind = .string) := by
  cases l <;> rfl

theorem isInt_literal (l : Literal) : (Slot.literal l).isInt = decide (l.kind = .int) := by
  cases l <;> rfl

/-- No shape can see a change that keeps the kinds of literals. -/
theorem unseen_mapSlot {f : Literal → Literal} (same : ∀ l, (f l).kind = l.kind) :
    Unseen (mapSlot f) where
  value slot := by cases slot <;> rfl
  name slot := by
    cases slot with
    | literal l => rw [mapSlot, isName_literal, isName_literal, same]
    | constraint category => rfl
  int slot := by
    cases slot with
    | literal l => rw [mapSlot, isInt_literal, isInt_literal, same]
    | constraint category => rfl
  nested category slot := by cases slot <;> rfl

theorem slotsOf_map (f : Literal → Literal) (category : Category) (arguments : List Literal)
    (children : Nat) : slotsOf category (arguments.map f) children =
      (slotsOf category arguments children).map (mapSlot f) := by
  simp only [slotsOf, List.map_append, List.map_map, List.map_replicate]
  rfl

end Shape

variable {c : Category}

/-- Only containers have shapes with nested constraints. -/
theorem Kind.isFlat_of_leaf {kind : Kind c} (leaf : kind.isContainer = false) :
    ∀ shape ∈ kind.shapes, shape.isFlat = true := by
  cases kind <;> revert leaf <;> decide

namespace Constraint

theorem isContainer_of_fits {kind : Kind c} {arguments : List Literal}
    {children : List (Constraint c)} (h : fitsKind (.node kind arguments children) = true) :
    kind.isContainer = true ∨ children = [] := by
  by_cases container : kind.isContainer = true
  · exact .inl container
  · right
    obtain ⟨shape, hshape, fits⟩ := List.any_eq_true.mp h
    have flat := Kind.isFlat_of_leaf (Bool.eq_false_iff.mpr container) shape hshape
    have values := Shape.isValue_of_isFlat flat fits
    cases children with
    | nil => rfl
    | cons child children =>
      have nested : Slot.constraint c ∈ Shape.slotsOf c arguments (children.length + 1) :=
        List.mem_append_right _ List.mem_cons_self
      exact absurd (values _ nested) Bool.false_ne_true

/-- The constructor of the sort that a kind is of. -/
def built (kind : Kind c) (arguments : List Literal) (children : List (Constraint c)) :
    Built (Constraint c) :=
  if children.isEmpty && !kind.isContainer then leaf kind arguments
  else container kind arguments children

theorem checked_eq (kind : Kind c) (arguments : List Literal) (children : List (Constraint c)) :
    checked kind arguments children = built kind arguments children >>= fun tree =>
      if tree.fitsKind then .ok tree else refuse kind (.misfit kind.shapes) := by
  unfold checked built
  split <;> rfl

theorem built_of_container {kind : Kind c} {arguments : List Literal}
    {children : List (Constraint c)} (h : kind.isContainer = true ∨ children = []) :
    built kind arguments children = .ok (.node kind arguments children) := by
  by_cases sort : kind.isContainer = true
  · simp [built, sort, container]
  · obtain rfl := h.resolve_left sort
    simp [built, sort, leaf]

theorem eq_of_built {kind : Kind c} {arguments : List Literal} {children : List (Constraint c)}
    {tree : Constraint c} (h : built kind arguments children = .ok tree) :
    tree = .node kind arguments children := by
  by_cases sort : kind.isContainer = true ∨ children = []
  · rw [built_of_container sort] at h
    cases h
    rfl
  · obtain ⟨leaf, some⟩ := not_or.mp sort
    simp [built, leaf, some, container, refuse] at h

/-- **The checked constructor accepts what fits.** A constraint is built from literals
and children exactly if they fit a shape of its kind, and it is then made of them. -/
theorem toOption_checked (kind : Kind c) (arguments : List Literal)
    (children : List (Constraint c)) : (checked kind arguments children).toOption =
      if fitsKind (.node kind arguments children) then some (.node kind arguments children)
      else none := by
  rw [checked_eq]
  by_cases h : fitsKind (.node kind arguments children) = true
  · rw [if_pos h, Outcome.toOption_eq_some]
    exact Outcome.bind_of_ok (built_of_container (isContainer_of_fits h)) (if_pos h)
  · rw [if_neg h, Outcome.toOption_bind, Option.bind_eq_none_iff]
    intro tree built
    rw [eq_of_built (Outcome.toOption_eq_some.mp built), if_neg h]
    rfl

/-- A constraint fits the same shapes with other literals of the same kinds and as many other
children. -/
theorem fitsKind_map {f : Literal → Literal} (same : ∀ l, (f l).kind = l.kind) (kind : Kind c)
    (arguments : List Literal) (g : Constraint c → Constraint c) (children : List (Constraint c)) :
    fitsKind (.node kind (arguments.map f) (children.map g)) =
      fitsKind (.node kind arguments children) := by
  simp only [fitsKind, Shape.fitsParts, Shape.slotsOf_map, List.length_map,
    Shape.fits_map (Shape.unseen_mapSlot same)]

/-- The text of a constraint says a constraint that fits the same shapes. -/
theorem fitsKind_normal (kind : Kind c) (arguments : List Literal)
    (children : List (Constraint c)) :
    fitsKind (.node kind (arguments.map Literal.normal) (children.map normal)) =
      fitsKind (.node kind arguments children) :=
  fitsKind_map Literal.kind_normal kind arguments normal children

/-! ### Arguments as written -/

/-- Arguments as written for literals and children. -/
def written (arguments : List Literal) (children : List (Constraint c)) : List Argument :=
  arguments.map .literal ++ children.map fun child => .constraint child.toAny

theorem literals_written (arguments : List Literal) (children : List (Constraint c)) :
    Argument.literals (written arguments children) = arguments := by
  have none : Argument.literals (children.map fun child => .constraint child.toAny) = [] := by
    simp [Argument.literals]
  have all : Argument.literals (arguments.map .literal) = arguments := by
    simp [Argument.literals, List.filterMap_map]
  rw [Argument.literals] at none all ⊢
  rw [written, List.filterMap_append, none, all, List.append_nil]

theorem constraints_written (arguments : List Literal) (children : List (Constraint c)) :
    Argument.constraints (written arguments children) = children.map toAny := by
  have none : Argument.constraints (arguments.map .literal) = [] := by
    simp [Argument.constraints]
  have all : Argument.constraints (children.map fun child => .constraint child.toAny) =
      children.map toAny := by
    simp [Argument.constraints, List.filterMap_map]
  rw [Argument.constraints] at none all ⊢
  rw [written, List.filterMap_append, none, all, List.nil_append]

theorem slots_written (arguments : List Literal) (children : List (Constraint c)) :
    (written arguments children).map Argument.slot =
      Shape.slotsOf c arguments children.length := by
  have slots : children.map (fun child => Argument.slot (.constraint child.toAny)) =
      List.replicate children.length (.constraint c) := by
    induction children with
    | nil => rfl
    | cons child children ih => rw [List.map_cons, ih]; rfl
  simp only [written, Shape.slotsOf, List.map_append, List.map_map, Function.comp_def, slots]
  rfl

theorem ownChildren_map (kind : Kind c) (children : List (Constraint c)) :
    ownChildren kind (children.map toAny) = .ok children := by
  induction children with
  | nil => rfl
  | cons child children ih =>
    simp only [List.map_cons, ownChildren, toAny, AnyConstraint.as?_self, ih]
    rfl

/-- Arguments as written make the constraint of their literals and children, if the kind
may have children. -/
theorem ofArguments_written {kind : Kind c} {arguments : List Literal}
    {children : List (Constraint c)} (h : kind.isContainer = true ∨ children = []) :
    ofArguments kind (written arguments children) = .ok (.node kind arguments children) := by
  rw [ofArguments, literals_written, constraints_written, ofChildren.eq_def]
  by_cases sort : kind.isContainer = true
  · rw [if_pos sort, ownChildren_map]
    rfl
  · obtain rfl := h.resolve_left sort
    rw [if_neg sort]
    rfl

theorem arguments_of_constraints {arguments : List Argument}
    (h : ∀ argument ∈ arguments, argument.slot.isValue = false) :
    Argument.literals arguments = [] ∧
      arguments = (Argument.constraints arguments).map .constraint := by
  induction arguments with
  | nil => exact ⟨rfl, rfl⟩
  | cons first rest ih =>
    obtain ⟨none, all⟩ := ih fun argument ha => h argument (List.mem_cons_of_mem _ ha)
    cases first with
    | literal value =>
      have nested := h _ List.mem_cons_self
      cases nested
    | constraint value => exact ⟨none, congrArg (Argument.constraint value :: ·) all⟩

/-- Arguments in which the literals come first are written for their literals and
constraints. -/
theorem arguments_of_ordered {arguments : List Argument}
    (h : Shape.Ordered (arguments.map Argument.slot)) :
    arguments = (Argument.literals arguments).map .literal ++
      (Argument.constraints arguments).map .constraint := by
  induction arguments with
  | nil => rfl
  | cons first rest ih =>
    cases first with
    | literal value =>
      rw [List.map_cons, Shape.Ordered, List.dropWhile_cons_of_pos rfl] at h
      exact congrArg (Argument.literal value :: ·) (ih h)
    | constraint value =>
      rw [List.map_cons, Shape.Ordered, List.dropWhile_cons_of_neg Bool.false_ne_true] at h
      have nested : ∀ argument ∈ Argument.constraint value :: rest,
          argument.slot.isValue = false := by
        intro argument ha
        exact h _ (List.mem_map_of_mem (f := Argument.slot) ha)
      obtain ⟨none, all⟩ := arguments_of_constraints nested
      rw [none]
      exact all

theorem as?_eq_some {any : AnyConstraint} {tree : Constraint c} (h : any.as? c = some tree) :
    any = tree.toAny := by
  obtain ⟨category, constraint⟩ := any
  unfold AnyConstraint.as? at h
  split at h
  · rename_i same
    cases same
    cases h
    rfl
  · cases h

theorem ownChildren_eq_ok {kind : Kind c} {children : List AnyConstraint}
    {own : List (Constraint c)} (h : ownChildren kind children = .ok own) :
    children = own.map toAny := by
  induction children generalizing own with
  | nil =>
    cases h
    rfl
  | cons child children ih =>
    rw [ownChildren] at h
    split at h
    · cases h
    · rename_i first same
      obtain ⟨rest, hrest, h⟩ := Outcome.bind_eq_ok.mp h
      cases h
      rw [List.map_cons, as?_eq_some same, ih hrest]

/-- What is built from arguments as written is made of their literals and of all their
constraints. -/
theorem ofArguments_eq_ok {kind : Kind c} {arguments : List Argument} {tree : Constraint c}
    (ordered : Shape.Ordered (arguments.map Argument.slot))
    (h : ofArguments kind arguments = .ok tree) :
    ∃ literals children, tree = .node kind literals children ∧
      arguments = written literals children := by
  have parts := arguments_of_ordered ordered
  rw [ofArguments, ofChildren.eq_def] at h
  split at h
  · obtain ⟨own, hown, rfl⟩ := Outcome.map_eq_ok.mp h
    refine ⟨_, own, rfl, ?_⟩
    rw [ownChildren_eq_ok hown, List.map_map] at parts
    exact parts
  · split at h
    · rename_i none
      cases h
      refine ⟨_, [], rfl, ?_⟩
      rw [none] at parts
      exact parts
    · cases h

end Constraint
end CatalogQuery
