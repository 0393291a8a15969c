import CatalogQuery.Proofs.Grammar.Calls
import CatalogQuery.Proofs.Grammar.Meaning

/-!
# Which call is to blame

Calls are resolved each after those in its arguments. A call can be resolved if its keyword is
in the catalog and its arguments have the layout of a shape; what the layout needs to know of
a nested call is told by its keyword. The first call of which this is not true is to blame.

* `Call.Fits`, `Call.Faults`: a call as such, and the error it causes if it does not fit;
* `build_of_fits`: what fits a shape can be built;
* `build_eq_ok`, `buildCall_eq_ok`: what is built of arguments as written;
* `Resolves`: a reading that succeeds if all calls fit, and blames the first that does not;
* `resolves_node`: resolving a raw tree is such a reading;
* `FirstFault.unique`: only one error can be blamed on the first fault.
-/

namespace CatalogQuery

/-! ### What fits can be built -/

namespace Shape

/-- The category of the nested constraints that a shape has. -/
def nested? : Shape → Option Category
  | .entityTypeWithFilter | .filterList | .singleFilter | .hierarchyWithin
  | .hierarchyWithinRoot => some .filter
  | .entityTypeWithOrderList | .orderList => some .order
  | .entityTypeWithRequireList | .entityTypesWithRequireList | .requireList => some .require
  | _ => none

/-- Slots whose nested constraints are all of a category. -/
def OnlyOf (category : Category) (slots : List Slot) : Prop :=
  ∀ found, .constraint found ∈ slots → found = category

section
variable {category : Category} {slots : List Slot}

theorem onlyOf_all (h : slots.all (Slot.isOf category) = true) : OnlyOf category slots :=
  fun _ found => eq_of_beq (List.all_eq_true.mp h _ found)

theorem onlyOf_one (h : one (Slot.isOf category) slots = true) : OnlyOf category slots := by
  unfold one at h
  split at h
  · exact onlyOf_all (by simpa using h)
  · cases h

theorem onlyOf_many (h : many (Slot.isOf category) slots = true) : OnlyOf category slots := by
  rw [many, Bool.and_eq_true] at h
  exact onlyOf_all h.2

theorem onlyOf_cons {slot : Slot} (value : slot.isValue = true) (h : OnlyOf category slots) :
    OnlyOf category (slot :: slots) := by
  intro found hs
  rcases List.mem_cons.mp hs with rfl | hs
  · cases value
  · exact h found hs

theorem onlyOf_followedBy (h : followedBy Slot.isValue (many (Slot.isOf category)) slots = true) :
    OnlyOf category slots := by
  obtain ⟨slot, rest, rfl, value, hrest⟩ := followedBy_parts h
  exact onlyOf_cons value (onlyOf_many hrest)

theorem onlyOf_split (h : (splitLiterals slots).2.all (Slot.isOf category) = true) :
    OnlyOf category slots := by
  intro found hs
  rw [← List.takeWhile_append_dropWhile (p := Slot.isValue) (l := slots), List.mem_append] at hs
  rcases hs with literal | rest
  · cases List.all_eq_true.mp List.all_takeWhile _ literal
  · exact onlyOf_all h found rest

end

/-- Nested constraints among slots of a shape are of its category. -/
theorem nested_of_fits {shape : Shape} {slots : List Slot} (h : shape.fits slots = true)
    {category : Category} (found : .constraint category ∈ slots) :
    shape.nested? = some category := by
  cases shape with
  | entityTypeWithFilter =>
    obtain ⟨a, b, rfl, value, nested⟩ := two_parts h
    have only : OnlyOf .filter [a, b] := onlyOf_cons value (onlyOf_all (by simpa using nested))
    rw [only _ found, nested?]
  | entityTypeWithOrderList => rw [onlyOf_followedBy h _ found, nested?]
  | entityTypeWithRequireList => rw [onlyOf_followedBy h _ found, nested?]
  | entityTypesWithRequireList =>
    simp only [fits, Bool.and_eq_true] at h
    rw [onlyOf_split h.2 _ found, nested?]
  | filterList => rw [onlyOf_many h _ found, nested?]
  | singleFilter => rw [onlyOf_one h _ found, nested?]
  | orderList => rw [onlyOf_many h _ found, nested?]
  | requireList => rw [onlyOf_many h _ found, nested?]
  | hierarchyWithin =>
    simp only [fits, Bool.and_eq_true] at h
    rw [onlyOf_split h.2 _ found, nested?]
  | hierarchyWithinRoot =>
    simp only [fits, Bool.and_eq_true] at h
    rw [onlyOf_split h.2 _ found, nested?]
  | _ => cases isValue_of_isFlat rfl h _ found

end Shape

variable {c : Category}

/-- The shapes of a kind have nested constraints of its own category only. -/
theorem Kind.nested_own (kind : Kind c) :
    ∀ shape ∈ kind.shapes, shape.nested? = none ∨ shape.nested? = some c := by
  cases kind <;> decide

namespace Grammar

open Constraint (written)

theorem exists_own {anys : List AnyConstraint} (h : ∀ any ∈ anys, any.category = c) :
    ∃ children : List (Constraint c), anys = children.map Constraint.toAny := by
  induction anys with
  | nil => exact ⟨[], rfl⟩
  | cons any anys ih =>
    obtain ⟨own, others⟩ := List.forall_mem_cons.mp h
    obtain ⟨children, rfl⟩ := ih others
    obtain ⟨category, tree⟩ := any
    cases own
    exact ⟨tree :: children, rfl⟩

/-- Arguments that fit a shape of a kind are literals and then constraints of its category. -/
theorem written_of_fitsArguments {kind : Kind c} {shape : Shape} (listed : shape ∈ kind.shapes)
    {arguments : List Argument} (fits : shape.fitsArguments arguments = true) :
    ∃ (literals : List Literal) (children : List (Constraint c)),
      arguments = written literals children := by
  have parts := Constraint.arguments_of_ordered (Shape.ordered_of_fits fits)
  have own : ∀ any ∈ Argument.constraints arguments, any.category = c := by
    intro any ha
    have found : Slot.constraint any.category ∈ arguments.map Argument.slot := by
      rw [parts]
      refine List.mem_map_of_mem (f := Argument.slot) (a := .constraint any) ?_
      exact List.mem_append_right _ (List.mem_map_of_mem ha)
    have nested := Shape.nested_of_fits fits found
    rcases kind.nested_own shape listed with none | same
    · rw [none] at nested
      cases nested
    · rw [same] at nested
      exact (Option.some.inj nested).symm
  obtain ⟨children, same⟩ := exists_own own
  refine ⟨Argument.literals arguments, children, ?_⟩
  rw [same, List.map_map] at parts
  exact parts

theorem written_of_fits {kind : Kind c} {arguments : List Argument}
    (h : kind.shapes.any (·.fitsArguments arguments) = true) :
    ∃ (literals : List Literal) (children : List (Constraint c)),
      arguments = written literals children := by
  obtain ⟨shape, listed, fits⟩ := List.any_eq_true.mp h
  exact written_of_fitsArguments listed fits

/-- **What fits a shape of a kind can be built.** -/
theorem build_of_fits {kind : Kind c} {arguments : List Argument} (site : Site)
    (h : kind.shapes.any (·.fitsArguments arguments) = true) :
    ∃ tree : Constraint c, build site kind arguments = .ok tree.toAny := by
  obtain ⟨literals, children, rfl⟩ := written_of_fits h
  have fits := h
  rw [fitsArguments_written] at fits
  refine ⟨.node kind literals children, ?_⟩
  rw [build, if_pos h, Constraint.ofArguments_written (Constraint.isContainer_of_fits fits)]

/-! ### Calls that fit -/

/-- What a shape sees of a raw argument. The category of a nested call is that of its keyword. -/
inductive SlotOf : RawNode → Slot → Prop
  | literal (value : Literal) : SlotOf (.literal value) (.literal value)
  | call {c : Category} (kind : Kind c) (source : List Char) (arguments : List RawNode) :
    SlotOf (.call kind.keyword source arguments) (.constraint c)

theorem keyword_of_lookup? {keyword : String} {kind : Kind c}
    (h : lookup? keyword = some ⟨c, kind⟩) : kind.keyword = keyword := by
  obtain ⟨category, -, found⟩ := List.exists_of_findSome?_eq_some h
  obtain ⟨kind', found, same⟩ := Option.map_eq_some_iff.mp found
  cases same
  unfold Kind.ofKeyword? at found
  have named := List.find?_some found
  exact eq_of_beq named

/-- **What is built of arguments** as written is a constraint of their literals and children,
which fits. -/
theorem build_eq_ok {site : Site} {kind : Kind c} {arguments : List Argument}
    {any : AnyConstraint} : build site kind arguments = .ok any ↔
      ∃ (literals : List Literal) (children : List (Constraint c)),
        arguments = written literals children ∧
        any = (Constraint.node kind literals children).toAny ∧
        Constraint.fitsKind (.node kind literals children) = true := by
  constructor
  · intro h
    by_cases fits : kind.shapes.any (·.fitsArguments arguments) = true
    · obtain ⟨literals, children, rfl⟩ := written_of_fits fits
      rw [← Outcome.toOption_eq_some, toOption_build_written, Option.ite_none_right_eq_some] at h
      obtain ⟨own, same⟩ := h
      cases same
      exact ⟨literals, children, rfl, rfl, own⟩
    · rw [build, if_neg fits] at h
      cases h
  · rintro ⟨literals, children, rfl, rfl, own⟩
    rw [← Outcome.toOption_eq_some]
    exact (toOption_build_written site kind literals children).trans (if_pos own)

/-- A keyword makes of arguments what is built of the kind that it names. -/
theorem buildCall_eq_ok {site : Site} {keyword : String} {arguments : List Argument}
    {any : AnyConstraint} : buildCall site keyword arguments = .ok any ↔
      ∃ (c : Category) (kind : Kind c), keyword = kind.keyword ∧
        build site kind arguments = .ok any := by
  constructor
  · intro h
    unfold buildCall at h
    split at h
    · rename_i c kind found
      exact ⟨c, kind, (keyword_of_lookup? found).symm, h⟩
    · split at h <;> cases h
  · rintro ⟨c, kind, rfl, built⟩
    rw [buildCall, lookup?_keyword]
    exact built

/-- A keyword names one kind. -/
theorem kind_unique {c' : Category} {kind : Kind c} {kind' : Kind c'}
    (h : kind.keyword = kind'.keyword) :
    (⟨c, kind⟩ : (category : Category) × Kind category) = ⟨c', kind'⟩ := by
  have found := lookup?_keyword kind
  rw [h, lookup?_keyword] at found
  exact (Option.some.inj found).symm

theorem slotOf_unique : Relator.RightUnique SlotOf := by
  intro raw slot slot' h h'
  cases h with
  | literal value =>
    cases h'
    rfl
  | call kind source arguments =>
    generalize keyword : kind.keyword = word at h'
    cases h' with
    | call kind' source arguments =>
      cases kind_unique keyword
      rfl

namespace Call

variable (call : Call)

/-- The arguments of a call have the layout of a shape of a kind. -/
def Suits (kind : Kind c) : Prop :=
  ∃ slots, List.Forall₂ SlotOf call.arguments slots ∧ ∃ shape ∈ kind.shapes, shape.fits slots = true

/-- The keyword of a call is in the catalog, and its arguments have the layout of a shape of
the keyword. -/
def Fits : Prop := ∃ (c : Category) (kind : Kind c), kind.keyword = call.keyword ∧ call.Suits kind

/-- The error that a call at a place causes. -/
inductive Faults (place : Text.Position) : ParseError → Prop
  | nestedQuery : call.keyword = Query.keyword → Faults place (.nestedQuery place)
  | unknownKeyword : call.keyword ≠ Query.keyword →
    (∀ (c : Category) (kind : Kind c), kind.keyword ≠ call.keyword) →
    Faults place (.unknownKeyword call.keyword place)
  | invalidArguments {c : Category} (kind : Kind c) : kind.keyword = call.keyword →
    ¬call.Suits kind → Faults place (.invalidArguments call.keyword place (.shapes kind.shapes))

variable {call} {place : Text.Position} {e e' : ParseError}

theorem Faults.not_fits (h : call.Faults place e) : ¬call.Fits := by
  rintro ⟨c, kind, named, suits⟩
  cases h with
  | nestedQuery query => exact keyword_ne_query kind (named.trans query)
  | unknownKeyword _ unknown => exact unknown c kind named
  | invalidArguments kind' named' misfit =>
    cases kind_unique (named.trans named'.symm)
    exact misfit suits

theorem Faults.unique (h : call.Faults place e) (h' : call.Faults place e') : e = e' := by
  cases h with
  | nestedQuery query =>
    cases h' with
    | nestedQuery _ => rfl
    | unknownKeyword other _ => exact absurd query other
    | invalidArguments kind named _ => exact absurd (named.trans query) (keyword_ne_query kind)
  | unknownKeyword other unknown =>
    cases h' with
    | nestedQuery query => exact absurd query other
    | unknownKeyword _ _ => rfl
    | invalidArguments kind named _ => exact absurd named (unknown _ kind)
  | invalidArguments kind named _ =>
    cases h' with
    | nestedQuery query => exact absurd (named.trans query) (keyword_ne_query kind)
    | unknownKeyword _ unknown => exact absurd named (unknown _ kind)
    | invalidArguments kind' named' _ =>
      cases kind_unique (named.trans named'.symm)
      rfl

end Call

/-! ### The first fault -/

/-- The first of some calls that does not fit causes an error. -/
def FirstFault (text : List Char) (calls : List Call) (e : ParseError) : Prop :=
  ∃ before call after, calls = before ++ call :: after ∧ (∀ earlier ∈ before, earlier.Fits) ∧
    call.Faults (Site.place ⟨text, call.source⟩) e

/-- The first member of a list without a property is the first one in every view of the list. -/
theorem first_unique {α : Type} {P : α → Prop} {before after before' after' : List α} {a a' : α}
    (same : before ++ a :: after = before' ++ a' :: after') (all : ∀ b ∈ before, P b)
    (all' : ∀ b ∈ before', P b) (ha : ¬P a) (ha' : ¬P a') : a = a' := by
  induction before generalizing before' with
  | nil =>
    cases before' with
    | nil => exact (List.cons.inj same).1
    | cons b before' =>
      obtain ⟨rfl, -⟩ := List.cons.inj same
      exact absurd (all' a List.mem_cons_self) ha
  | cons b before ih =>
    cases before' with
    | nil =>
      obtain ⟨rfl, -⟩ := List.cons.inj same
      exact absurd (all b List.mem_cons_self) ha'
    | cons b' before' =>
      obtain ⟨-, same⟩ := List.cons.inj same
      exact ih same (fun x hx => all x (List.mem_cons_of_mem b hx))
        fun x hx => all' x (List.mem_cons_of_mem b' hx)

theorem FirstFault.unique {text : List Char} {calls : List Call} {e e' : ParseError}
    (h : FirstFault text calls e) (h' : FirstFault text calls e') : e = e' := by
  obtain ⟨before, call, after, rfl, fit, faults⟩ := h
  obtain ⟨before', call', after', same, fit', faults'⟩ := h'
  obtain rfl := first_unique same fit fit' faults.not_fits faults'.not_fits
  exact faults.unique faults'

section
variable {α β : Type} {text : List Char} {calls others : List Call} {Good : α → Prop}
  {Good' : β → Prop} {x : Except ParseError α}

/-- A reading that needs some calls: if all fit, it gives something good, and otherwise it
blames the first that does not fit. -/
def Resolves (text : List Char) (calls : List Call) (Good : α → Prop) : Except ParseError α → Prop
  | .ok a => (∀ call ∈ calls, call.Fits) ∧ Good a
  | .error e => FirstFault text calls e

theorem Resolves.bind {f : α → Except ParseError β} (h : Resolves text calls Good x)
    (next : ∀ a, Good a → Resolves text others Good' (f a)) :
    Resolves text (calls ++ others) Good' (x >>= f) := by
  cases x with
  | error e =>
    obtain ⟨before, call, after, rfl, fit, faults⟩ := h
    exact ⟨before, call, after ++ others, by simp, fit, faults⟩
  | ok a =>
    -- A fault of the second reading is the first of all, since the first reading had none.
    obtain ⟨all, good⟩ := h
    have further := next a good
    change Resolves text (calls ++ others) Good' (f a)
    generalize f a = y at further
    cases y with
    | error e =>
      obtain ⟨before, call, after, rfl, fit, faults⟩ := further
      refine ⟨calls ++ before, call, after, by simp, ?_, faults⟩
      exact List.forall_mem_append.mpr ⟨all, fit⟩
    | ok b => exact ⟨List.forall_mem_append.mpr ⟨all, further.1⟩, further.2⟩

theorem Resolves.map (h : Resolves text calls Good x) (f : α → β)
    (good : ∀ a, Good a → Good' (f a)) : Resolves text calls Good' (x.map f) := by
  cases x with
  | error e => exact h
  | ok a => exact ⟨h.1, good a h.2⟩

/-- A reading that succeeds exactly if all calls fit. -/
theorem Resolves.ok_iff (h : Resolves text calls Good x) :
    (∃ a, x = .ok a) ↔ ∀ call ∈ calls, call.Fits := by
  cases x with
  | ok a => exact iff_of_true ⟨a, rfl⟩ h.1
  | error e =>
    obtain ⟨before, call, after, rfl, -, faults⟩ := h
    refine iff_of_false (by simp) fun all => ?_
    exact faults.not_fits (all call (by simp))

theorem Resolves.error_iff (h : Resolves text calls Good x) (e : ParseError) :
    x = .error e ↔ FirstFault text calls e := by
  cases x with
  | ok a =>
    refine iff_of_false (by simp) ?_
    rintro ⟨before, call, after, rfl, -, faults⟩
    exact faults.not_fits (h.1 call (by simp))
  | error e' =>
    constructor
    · intro same
      cases same
      exact h
    · intro first
      rw [FirstFault.unique h first]

end

/-! ### Resolving a raw tree -/

/-- **A call with resolved arguments is resolved or to blame.** -/
theorem resolves_call (text : List Char) (keyword : String) (source : List Char)
    {raws : List RawNode} {arguments : List Argument}
    (slots : List.Forall₂ SlotOf raws (arguments.map Argument.slot)) :
    Resolves text [⟨keyword, source, raws⟩]
      (fun any => SlotOf (.call keyword source raws) (.constraint any.category))
      (buildCall ⟨text, source⟩ keyword arguments) := by
  have single (e : ParseError)
      (faults : Call.Faults ⟨keyword, source, raws⟩ (Site.place ⟨text, source⟩) e) :
      FirstFault text [⟨keyword, source, raws⟩] e :=
    ⟨[], _, [], rfl, by simp, faults⟩
  unfold buildCall
  split
  · rename_i c kind found
    obtain rfl := keyword_of_lookup? found
    by_cases fits : kind.shapes.any (·.fitsArguments arguments) = true
    · obtain ⟨tree, built⟩ := build_of_fits ⟨text, source⟩ fits
      obtain ⟨shape, listed, suits⟩ := List.any_eq_true.mp fits
      rw [built]
      exact ⟨List.forall_mem_singleton.mpr ⟨c, kind, rfl, _, slots, shape, listed, suits⟩,
        .call kind source raws⟩
    · -- The slots of the resolved arguments are the only ones, so no others fit either.
      rw [build, if_neg fits]
      refine single _ (.invalidArguments kind rfl ?_)
      rintro ⟨slots', hslots, shape, listed, suits⟩
      rw [slotOf_unique.forall₂ hslots slots] at suits
      exact fits (List.any_eq_true.mpr ⟨shape, listed, suits⟩)
  · rename_i unknown
    split
    · rename_i query
      exact single _ (.nestedQuery query)
    · rename_i other
      refine single _ (.unknownKeyword other ?_)
      rintro c kind rfl
      rw [lookup?_keyword] at unknown
      cases unknown

theorem resolveAll_cons (text : List Char) (raw : RawNode) (raws : List RawNode) :
    resolveAll text (raw :: raws) =
      resolve text raw >>= fun first => (resolveAll text raws).map (first :: ·) := by
  rw [resolveAll]
  cases resolveAll text raws <;> rfl

theorem resolves_all {text : List Char} {raws : List RawNode}
    (each : ∀ raw ∈ raws, Resolves text raw.calls (fun a => SlotOf raw a.slot) (resolve text raw)) :
    Resolves text (raws.flatMap RawNode.calls)
      (fun arguments => List.Forall₂ SlotOf raws (arguments.map Argument.slot))
      (resolveAll text raws) := by
  induction raws with
  | nil => exact ⟨by simp, .nil⟩
  | cons raw raws ih =>
    obtain ⟨own, others⟩ := List.forall_mem_cons.mp each
    rw [resolveAll_cons, List.flatMap_cons]
    apply own.bind
    intro first slot
    exact (ih others).map _ fun rest slots => .cons slot slots

/-- **A raw tree is resolved if all its calls fit; otherwise the first that does not is to
blame.** -/
theorem resolves_node (text : List Char) (raw : RawNode) :
    Resolves text raw.calls (fun a => SlotOf raw a.slot) (resolve text raw) := by
  induction raw using RawNode.induct with
  | literal value => exact ⟨by simp [RawNode.calls], .literal value⟩
  | call keyword source arguments ih =>
    rw [RawNode.calls_call, resolve]
    apply (resolves_all ih).bind
    intro found slots
    exact (resolves_call text keyword source slots).map _ fun any slot => slot

end Grammar
end CatalogQuery
