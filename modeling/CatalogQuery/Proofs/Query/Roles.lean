import CatalogQuery.Proofs.Grammar.Roots
import CatalogQuery.Proofs.Grammar.Spelled
import CatalogQuery.Proofs.Query.Normal

/-!
# The roles of the arguments of a query

A constraint that names entities is the head of a query, and the root containers of the
other categories are its other parts. All else has no role. Arguments take their places one
by one, and the first that has no role or whose role is taken ends the reading.

* `Argument.role?`, `Placed`, `MakesQuery`: the role of an argument, and when arguments make
  a query;
* `QueryParts.Holds`: the part in each role is the argument with this role;
* `Holds.add`, `resolveParts_append`: one argument, and any number of them;
* `QueryFault`, `makes_or_fault`: arguments make a query, or something is in the way;
* `resolveQuery_of_makes`, `resolveQuery_of_fault`: what becomes of them in either case;
* `QueryParts.Holds.unique`: the order of the arguments is of no account.
-/

namespace CatalogQuery

open Constraint (toAny)

/-- What a constraint is to a query. -/
inductive Role
  | head
  | filterBy
  | orderBy
  | require
  deriving DecidableEq

/-- All roles, in the order in which the parts of a query are written. -/
def Role.all : List Role := [.head, .filterBy, .orderBy, .require]

theorem Role.mem_all (role : Role) : role ∈ all := by cases role <;> decide

/-- What a constraint is to a query, if it may be a part of one. -/
def AnyConstraint.role? : AnyConstraint → Option Role
  | ⟨.head, _⟩ => some .head
  | ⟨.filter, tree⟩ => if tree.kind = .filterBy then some .filterBy else none
  | ⟨.order, tree⟩ => if tree.kind = .orderBy then some .orderBy else none
  | ⟨.require, tree⟩ => if tree.kind = .require then some .require else none

/-- What an argument is to a query. A literal is nothing to it. -/
def Argument.role? : Argument → Option Role
  | .constraint any => any.role?
  | .literal _ => none

theorem AnyConstraint.isPart_eq (any : AnyConstraint) : any.isPart = any.role?.isSome := by
  obtain ⟨category, tree⟩ := any
  cases category
  · rfl
  all_goals
    simp only [isPart, role?]
    split <;> simp [*]

namespace Grammar

/-- Each argument has a role, and no two have the same. -/
structure Placed (arguments : List Argument) : Prop where
  role : ∀ argument ∈ arguments, argument.role? ≠ none
  once : (arguments.map Argument.role?).Nodup

/-- Arguments that make a query: each has a role of its own, and one is the head. -/
structure MakesQuery (arguments : List Argument) : Prop extends Placed arguments where
  head : some Role.head ∈ arguments.map Argument.role?

theorem placed_nil : Placed [] := ⟨by simp, by simp⟩

theorem placed_snoc {arguments : List Argument} {argument : Argument} :
    Placed (arguments ++ [argument]) ↔ Placed arguments ∧ argument.role? ≠ none ∧
      argument.role? ∉ arguments.map Argument.role? := by
  constructor
  · rintro ⟨role, once⟩
    rw [List.map_append, List.nodup_append] at once
    obtain ⟨first, -, apart⟩ := once
    refine ⟨⟨fun a ha => role a (List.mem_append_left _ ha), first⟩, role _ (by simp), ?_⟩
    intro taken
    exact apart _ taken _ (by simp) rfl
  · rintro ⟨⟨role, once⟩, own, free⟩
    refine ⟨?_, ?_⟩
    · intro a ha
      rcases List.mem_append.mp ha with ha | ha
      · exact role a ha
      · rwa [List.mem_singleton.mp ha]
    · rw [List.map_append, List.nodup_append]
      refine ⟨once, List.nodup_singleton _, ?_⟩
      rintro _ taken _ last rfl
      rw [List.map_singleton, List.mem_singleton] at last
      exact free (last ▸ taken)

theorem Placed.of_append {arguments others : List Argument} (h : Placed (arguments ++ others)) :
    Placed arguments := by
  refine ⟨fun a ha => h.role a (List.mem_append_left _ ha), ?_⟩
  have once := h.once
  rw [List.map_append] at once
  exact once.of_append_left

theorem MakesQuery.of_perm {arguments arguments' : List Argument} (h : MakesQuery arguments)
    (perm : arguments.Perm arguments') : MakesQuery arguments' where
  role argument found := h.role argument (perm.mem_iff.mpr found)
  once := (perm.map Argument.role?).nodup h.once
  head := (perm.map Argument.role?).mem_iff.mp h.head

namespace QueryParts

def part? (parts : QueryParts) : Role → Option AnyConstraint
  | .head => parts.head.map toAny
  | .filterBy => parts.filterBy.map toAny
  | .orderBy => parts.orderBy.map toAny
  | .require => parts.require.map toAny

/-- The part in each role is the argument with this role. -/
def Holds (parts : QueryParts) (arguments : List Argument) : Prop :=
  ∀ role any, parts.part? role = some any ↔
    Argument.constraint any ∈ arguments ∧ any.role? = some role

theorem holds_nil : none.Holds [] := by
  intro role any
  cases role <;> simp [none, part?]

/-! ### One argument -/

/-- A constraint put in the place of its category. -/
def put (parts : QueryParts) : AnyConstraint → QueryParts
  | ⟨.head, tree⟩ => { parts with head := some tree }
  | ⟨.filter, tree⟩ => { parts with filterBy := some tree }
  | ⟨.order, tree⟩ => { parts with orderBy := some tree }
  | ⟨.require, tree⟩ => { parts with require := some tree }

section
variable {parts : QueryParts} {any : AnyConstraint} {role : Role}

theorem add?_of_no_role {argument : Argument} (h : argument.role? = .none) :
    parts.add? argument = .none := by
  cases argument with
  | literal value => rfl
  | constraint any =>
    obtain ⟨category, tree⟩ := any
    cases category <;> simp_all [Argument.role?, AnyConstraint.role?, add?]

/-- A constraint takes its place if that is free. -/
theorem add?_of_role (h : any.role? = some role) : parts.add? (.constraint any) =
    if (parts.part? role).isNone then some (parts.put any) else .none := by
  obtain ⟨category, tree⟩ := any
  cases category <;>
    simp only [AnyConstraint.role?, Option.ite_none_right_eq_some, Option.some.injEq] at h
  · subst h
    simp [add?, part?, put]
  all_goals
    obtain ⟨kind, rfl⟩ := h
    simp [add?, part?, put, kind]

/-- Nothing changes but the place that a constraint takes. -/
theorem part?_put (h : any.role? = some role) (other : Role) :
    (parts.put any).part? other = if other = role then some any else parts.part? other := by
  obtain ⟨category, tree⟩ := any
  cases category <;>
    simp only [AnyConstraint.role?, Option.ite_none_right_eq_some, Option.some.injEq] at h
  · subst h
    cases other <;> rfl
  all_goals
    obtain ⟨-, rfl⟩ := h
    cases other <;> rfl

variable {seen : List Argument}

theorem Holds.isNone_iff (h : parts.Holds seen) (role : Role) :
    (parts.part? role).isNone ↔ some role ∉ seen.map Argument.role? := by
  rw [Option.isNone_iff_eq_none]
  constructor
  · intro free taken
    obtain ⟨argument, found, same⟩ := List.mem_map.mp taken
    cases argument with
    | literal value => cases same
    | constraint any =>
      rw [(h role any).mpr ⟨found, same⟩] at free
      cases free
  · intro free
    apply Option.eq_none_iff_forall_ne_some.mpr
    intro any held
    obtain ⟨found, same⟩ := (h role any).mp held
    exact free (List.mem_map.mpr ⟨_, found, same⟩)

/-- **An argument takes its place** if it has a role that is not taken. -/
theorem Holds.add (h : parts.Holds seen) {argument : Argument}
    (placed : Placed (seen ++ [argument])) :
    ∃ parts', parts.add? argument = some parts' ∧ parts'.Holds (seen ++ [argument]) := by
  obtain ⟨-, own, free⟩ := placed_snoc.mp placed
  cases argument with
  | literal value => exact absurd rfl own
  | constraint any =>
    obtain ⟨role, hrole⟩ := Option.ne_none_iff_exists'.mp own
    change any.role? = some role at hrole
    rw [Argument.role?, hrole, ← h.isNone_iff] at free
    refine ⟨parts.put any, by rw [add?_of_role hrole, if_pos free], ?_⟩
    intro other found
    rw [part?_put hrole, List.mem_append, List.mem_singleton, Argument.constraint.injEq]
    by_cases same : other = role
    · rw [if_pos same, Option.some.injEq]
      constructor
      · rintro rfl
        exact ⟨.inr rfl, same ▸ hrole⟩
      · rintro ⟨before | last, role'⟩
        · rw [h.isNone_iff] at free
          exact absurd (List.mem_map.mpr ⟨_, before, same ▸ role'⟩) free
        · exact last.symm
    · rw [if_neg same, h other found]
      constructor
      · rintro ⟨before, role'⟩
        exact ⟨.inl before, role'⟩
      · rintro ⟨before | rfl, role'⟩
        · exact ⟨before, role'⟩
        · rw [hrole, Option.some.injEq] at role'
          exact absurd role'.symm same

/-- Nothing comes of an argument that has no role or whose role is taken. -/
theorem Holds.add_eq_none (h : parts.Holds seen) (placed : Placed seen) {argument : Argument}
    (misplaced : ¬Placed (seen ++ [argument])) : parts.add? argument = .none := by
  rw [placed_snoc] at misplaced
  cases hrole : argument.role? with
  | none => exact add?_of_no_role hrole
  | some role =>
    cases argument with
    | literal value => cases hrole
    | constraint any =>
      have taken : ¬(parts.part? role).isNone = true := by
        rw [h.isNone_iff]
        intro free
        exact misplaced ⟨placed, by simp [hrole], by rwa [hrole]⟩
      rw [add?_of_role hrole, if_neg taken]

end

end QueryParts

/-! ### All arguments -/

/-- Raw arguments are resolved to arguments, each to its own. -/
def ResolvesTo (text : List Char) (raws : List RawNode) (arguments : List Argument) : Prop :=
  List.Forall₂ (fun raw argument => resolve text raw = .ok argument) raws arguments

section
variable {site : Site} {parts : QueryParts} {raws : List RawNode} {seen arguments : List Argument}

/-- **Arguments take their places one after the other**, as long as each has a role of its
own, and the reading goes on with what follows them. -/
theorem resolveParts_append (resolved : ResolvesTo site.text raws arguments)
    (h : parts.Holds seen) (placed : Placed (seen ++ arguments)) :
    ∃ parts' : QueryParts, parts'.Holds (seen ++ arguments) ∧
      ∀ rest, resolveParts site parts (raws ++ rest) = resolveParts site parts' rest := by
  induction resolved generalizing parts seen with
  | nil =>
    rw [List.append_nil]
    exact ⟨parts, h, fun rest => rfl⟩
  | @cons raw argument raws arguments first others ih =>
    rw [List.append_cons] at placed ⊢
    obtain ⟨next, added, holds⟩ := h.add placed.of_append
    obtain ⟨parts', all, run⟩ := ih holds placed
    refine ⟨parts', all, ?_⟩
    intro rest
    rw [List.cons_append, resolveParts]
    apply Outcome.bind_of_ok first
    simp only [added, run]

/-- The parts of a query that has been found, in the order of their roles. -/
theorem parts_eq {head : HeadConstraint} (h : parts.head = some head) :
    Query.parts ⟨head, parts.filterBy, parts.orderBy, parts.require⟩ =
      Role.all.filterMap parts.part? := by
  obtain ⟨_, filterBy, orderBy, require⟩ := parts
  cases h
  cases filterBy <;> cases orderBy <;> cases require <;> rfl

theorem mem_held {any : AnyConstraint} :
    any ∈ Role.all.filterMap parts.part? ↔ ∃ role, parts.part? role = some any := by
  rw [List.mem_filterMap]
  constructor
  · rintro ⟨role, -, held⟩
    exact ⟨role, held⟩
  · rintro ⟨role, held⟩
    exact ⟨role, role.mem_all, held⟩

/-- **Parts in their places always make a query** with the head among them. -/
theorem QueryParts.Holds.create (h : parts.Holds arguments) {head : HeadConstraint}
    (first : parts.head = some head) :
    Query.create head parts.filterBy parts.orderBy parts.require =
      .ok ⟨head, parts.filterBy, parts.orderBy, parts.require⟩ := by
  have rooted : Query.rooted ⟨head, parts.filterBy, parts.orderBy, parts.require⟩ = true := by
    rw [Query.rooted, parts_eq first]
    apply List.all_eq_true.mpr
    intro any held
    obtain ⟨role, held⟩ := mem_held.mp held
    rw [any.isPart_eq, ((h role any).mp held).2]
    rfl
  rw [← Outcome.toOption_eq_some]
  refine (Query.toOption_create ⟨head, _, _, _⟩).trans ?_
  rw [if_pos rooted]

theorem QueryParts.Holds.head_eq_none (h : parts.Holds arguments) :
    parts.head = .none ↔ some Role.head ∉ arguments.map Argument.role? := by
  rw [← h.isNone_iff, QueryParts.part?, Option.isNone_map, Option.isNone_iff_eq_none]

/-- What has been found are the arguments, in the order of their roles. -/
theorem QueryParts.Holds.perm (h : parts.Holds arguments) (placed : Placed arguments) :
    ((Role.all.filterMap parts.part?).map Argument.constraint).Perm arguments := by
  have distinct : (Role.all.filterMap parts.part?).Nodup := by
    apply List.Nodup.filterMap _ (by decide)
    intro role role' any held held'
    have own := ((h role any).mp held).2
    rw [((h role' any).mp held').2, Option.some.injEq] at own
    exact own.symm
  have apart : arguments.Nodup := placed.once.of_map
  rw [List.perm_ext_iff_of_nodup (distinct.map fun _ _ same => Argument.constraint.inj same) apart]
  intro argument
  rw [List.mem_map]
  constructor
  · rintro ⟨any, held, rfl⟩
    obtain ⟨role, held⟩ := mem_held.mp held
    exact ((h role any).mp held).1
  · intro found
    obtain ⟨role, hrole⟩ := Option.ne_none_iff_exists'.mp (placed.role _ found)
    cases argument with
    | literal value => cases hrole
    | constraint any => exact ⟨any, mem_held.mpr ⟨role, (h role any).mpr ⟨found, hrole⟩⟩, rfl⟩

theorem toAny_injective {c : Category} : Function.Injective (toAny (c := c)) := by
  intro tree tree' h
  cases h
  rfl

/-- **The order of the arguments is of no account** to the parts that are found. -/
theorem QueryParts.Holds.unique {parts' : QueryParts} {arguments' : List Argument}
    (h : parts.Holds arguments) (h' : parts'.Holds arguments')
    (perm : arguments.Perm arguments') : parts = parts' := by
  have same (role : Role) : parts.part? role = parts'.part? role := by
    apply Option.ext
    intro any
    rw [h role any, h' role any, perm.mem_iff]
  obtain ⟨head, filterBy, orderBy, require⟩ := parts
  obtain ⟨head', filterBy', orderBy', require'⟩ := parts'
  have head := Option.map_injective toAny_injective (same .head)
  have filterBy := Option.map_injective toAny_injective (same .filterBy)
  have orderBy := Option.map_injective toAny_injective (same .orderBy)
  have require := Option.map_injective toAny_injective (same .require)
  subst head filterBy orderBy require
  rfl

/-- Why a raw argument of a query at a place has no place in it after other arguments: it cannot
be resolved, or it has no role, or an argument before it has the same. -/
inductive Obstacle (text : List Char) (place : Text.Position) (arguments : List Argument)
    (raw : RawNode) : ParseError → Prop
  | unresolved {e : ParseError} : resolve text raw = .error e →
    Obstacle text place arguments raw e
  | misplaced {argument : Argument} : resolve text raw = .ok argument →
    argument.role? = none ∨ argument.role? ∈ arguments.map Argument.role? →
    Obstacle text place arguments raw (.invalidArguments Query.keyword place .queryParts)

/-- Why the arguments of a query at a place do not make one: the first that has no place in it, or
that there is no head among all of them. -/
inductive QueryFault (text : List Char) (place : Text.Position) (raws : List RawNode) :
    ParseError → Prop
  | obstacle {before after : List RawNode} {raw : RawNode} {arguments : List Argument}
    {e : ParseError} : raws = before ++ raw :: after → ResolvesTo text before arguments →
    Placed arguments → Obstacle text place arguments raw e → QueryFault text place raws e
  | headless {arguments : List Argument} : ResolvesTo text raws arguments → Placed arguments →
    some Role.head ∉ arguments.map Argument.role? →
    QueryFault text place raws (.invalidArguments Query.keyword place .queryParts)

/-- Arguments that have places are found. -/
theorem resolveParts_of_placed (resolved : ResolvesTo site.text raws arguments)
    (placed : Placed arguments) :
    ∃ parts : QueryParts, parts.Holds arguments ∧ resolveParts site .none raws = .ok parts := by
  obtain ⟨parts, holds, run⟩ := resolveParts_append resolved QueryParts.holds_nil placed
  refine ⟨parts, holds, ?_⟩
  rw [← List.append_nil raws, run, resolveParts]

/-- The first argument that has no place is reported. -/
theorem resolveParts_of_obstacle {before after : List RawNode} {raw : RawNode} {e : ParseError}
    (resolved : ResolvesTo site.text before arguments) (placed : Placed arguments)
    (obstacle : Obstacle site.text site.place arguments raw e) :
    resolveParts site .none (before ++ raw :: after) = .error e := by
  obtain ⟨parts, holds, run⟩ := resolveParts_append resolved QueryParts.holds_nil placed
  rw [run, resolveParts]
  cases obstacle with
  | unresolved refused =>
    rw [refused]
    rfl
  | misplaced next role =>
    have misplaced := mt placed_snoc.mp fun found => role.elim found.2.1 found.2.2
    rw [next]
    simp only [bind, Except.bind, holds.add_eq_none placed misplaced, refuseParts]

/-- Arguments that make a query are resolved to it. -/
theorem resolveQuery_of_makes (site : Site) (resolved : ResolvesTo site.text raws arguments)
    (makes : MakesQuery arguments) : ∃ (parts : QueryParts) (head : HeadConstraint),
      parts.Holds arguments ∧ parts.head = some head ∧
      resolveQuery site raws = .ok ⟨head, parts.filterBy, parts.orderBy, parts.require⟩ := by
  obtain ⟨parts, holds, found⟩ := resolveParts_of_placed resolved makes.toPlaced
  have first : parts.head ≠ none := fun missing => holds.head_eq_none.mp missing makes.head
  obtain ⟨head, hhead⟩ := Option.ne_none_iff_exists'.mp first
  refine ⟨parts, head, holds, hhead, ?_⟩
  rw [resolveQuery, found]
  simp only [bind, Except.bind, buildQuery, hhead, holds.create hhead]

/-- What is in the way of a query is reported. -/
theorem resolveQuery_of_fault (site : Site) {e : ParseError}
    (h : QueryFault site.text site.place raws e) : resolveQuery site raws = .error e := by
  rw [resolveQuery]
  cases h with
  | obstacle split resolved placed obstacle =>
    rw [split, resolveParts_of_obstacle resolved placed obstacle]
    rfl
  | headless resolved placed missing =>
    obtain ⟨parts, holds, found⟩ := resolveParts_of_placed resolved placed
    have none := holds.head_eq_none.mpr missing
    rw [found]
    simp only [bind, Except.bind, buildQuery]
    rw [none]
    rfl

/-- Raw arguments have places, or there is a first one that has none. -/
theorem placed_or_obstacle (text : List Char) (place : Text.Position) (raws : List RawNode) :
    (∃ arguments, ResolvesTo text raws arguments ∧ Placed arguments) ∨
      ∃ before raw after arguments e, raws = before ++ raw :: after ∧
        ResolvesTo text before arguments ∧ Placed arguments ∧
        Obstacle text place arguments raw e := by
  induction raws using List.reverseRecOn with
  | nil => exact .inl ⟨[], .nil, placed_nil⟩
  | append_singleton raws raw ih =>
    rcases ih with ⟨arguments, resolved, placed⟩ | ⟨before, raw', after, arguments, e, split, rest⟩
    · cases next : resolve text raw with
      | error e =>
        exact .inr ⟨raws, raw, [], arguments, e, rfl, resolved, placed, .unresolved next⟩
      | ok argument =>
        by_cases own : Placed (arguments ++ [argument])
        · refine .inl ⟨arguments ++ [argument], ?_, own⟩
          exact List.rel_append resolved (.cons next .nil)
        · have role : argument.role? = none ∨ argument.role? ∈ arguments.map Argument.role? := by
            rw [placed_snoc] at own
            tauto
          exact .inr ⟨raws, raw, [], arguments, _, rfl, resolved, placed, .misplaced next role⟩
    · refine .inr ⟨before, raw', after ++ [raw], arguments, e, ?_, rest⟩
      rw [split, List.append_assoc, List.cons_append]

/-- **Arguments make a query, or something is in the way.** -/
theorem makes_or_fault (text : List Char) (place : Text.Position) (raws : List RawNode) :
    (∃ arguments, ResolvesTo text raws arguments ∧ MakesQuery arguments) ∨
      ∃ e, QueryFault text place raws e := by
  rcases placed_or_obstacle text place raws with
    ⟨arguments, resolved, placed⟩ | ⟨before, raw, after, arguments, e, split, resolved, placed, h⟩
  · by_cases head : some Role.head ∈ arguments.map Argument.role?
    · exact .inl ⟨arguments, resolved, placed, head⟩
    · exact .inr ⟨_, .headless resolved placed head⟩
  · exact .inr ⟨e, .obstacle split resolved placed h⟩

/-- Only arguments that have places are found. -/
theorem holds_of_resolveParts (found : resolveParts site .none raws = .ok parts) :
    ∃ arguments, ResolvesTo site.text raws arguments ∧ Placed arguments ∧
      parts.Holds arguments := by
  rcases placed_or_obstacle site.text site.place raws with
    ⟨arguments, resolved, placed⟩ | ⟨before, raw, after, arguments, e, rfl, resolved, placed, h⟩
  · obtain ⟨parts', holds, found'⟩ := resolveParts_of_placed resolved placed
    rw [found, Except.ok.injEq] at found'
    exact ⟨arguments, resolved, placed, found' ▸ holds⟩
  · rw [resolveParts_of_obstacle resolved placed h] at found
    cases found

end
end Grammar
end CatalogQuery
