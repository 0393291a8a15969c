import CatalogQuery.Proofs.Fragment.Exact
import CatalogQuery.Proofs.Parse.Entries
import CatalogQuery.Proofs.Purify.Survivors

/-!
# Category discipline

A constraint holds children of its own category only, and none unless its kind is a container.
The constructors that check this blame the first child that breaks it. Purification builds
nodes without a check, of children that were checked where they came from.

* `Constraint.ofChildren_eq_ok`, `Constraint.ofChildren_eq_error`: what is built of children of
  any category, and which child is to blame otherwise;
* `Constraint.Interleaved`: literals and constraints mixed, each in their order;
* `Constraint.Obtained`: the ways to obtain a constraint;
* `Constraint.Obtained.leavesBare`: in none of them a leaf gets children;
* `construction_is_disciplined`: all of this.
-/

namespace CatalogQuery

variable {c : Category}

namespace Constraint

open Grammar (exists_own)

/-! ### Children of any category -/

/-- Either all constraints are of a category, or there is a first one that is not. -/
theorem own_or_foreign (c : Category) (children : List AnyConstraint) :
    (∀ child ∈ children, child.category = c) ∨
      ∃ before child after, children = before ++ child :: after ∧
        (∀ own ∈ before, own.category = c) ∧ child.category ≠ c := by
  induction children with
  | nil => exact .inl (by simp)
  | cons first rest ih =>
    by_cases own : first.category = c
    · rcases ih with all | ⟨before, child, after, rfl, all, foreign⟩
      · exact .inl (List.forall_mem_cons.mpr ⟨own, all⟩)
      · have all : ∀ own ∈ first :: before, own.category = c :=
          List.forall_mem_cons.mpr ⟨own, all⟩
        exact .inr ⟨first :: before, child, after, rfl, all, foreign⟩
    · exact .inr ⟨[], first, rest, rfl, by simp, own⟩

/-- The first child of another category is to blame. -/
theorem ownChildren_of_foreign (kind : Kind c) {before after : List AnyConstraint}
    {child : AnyConstraint} (own : ∀ any ∈ before, any.category = c)
    (foreign : child.category ≠ c) : ownChildren kind (before ++ child :: after) =
      refuse kind (.foreignChild child.keyword child.category c) := by
  obtain ⟨trees, rfl⟩ := exists_own own
  induction trees with
  | nil =>
    have none : child.as? c = none := dif_neg foreign
    rw [List.map_nil, List.nil_append, ownChildren, none]
  | cons tree trees ih =>
    rw [List.map_cons, List.cons_append, ownChildren, toAny, AnyConstraint.as?_self]
    dsimp only
    rw [ih fun any ha => own any (List.mem_cons_of_mem _ ha)]
    rfl

variable {kind : Kind c} {arguments : List Literal} {children : List AnyConstraint}

theorem ofChildren_leaf (leaf : kind.isContainer = false) :
    ofChildren kind arguments [] = .ok (.node kind arguments []) :=
  if_neg (Bool.eq_false_iff.mp leaf)

/-- The first child of a leaf is to blame. -/
theorem ofChildren_leaf_cons (leaf : kind.isContainer = false) (child : AnyConstraint) :
    ofChildren kind arguments (child :: children) =
      refuse kind (.leafWithNested child.keyword) :=
  if_neg (Bool.eq_false_iff.mp leaf)

theorem ofChildren_of_container (container : kind.isContainer = true) :
    ofChildren kind arguments children = (ownChildren kind children).map (.node kind arguments) :=
  if_pos container

/-- What is built has the kind, the arguments and the children it was built of. -/
theorem ofChildren_eq_ok {tree : Constraint c} :
    ofChildren kind arguments children = .ok tree ↔
      (kind.isContainer = true ∨ children = []) ∧ tree.kind = kind ∧ tree.arguments = arguments ∧
        tree.children.map toAny = children := by
  obtain ⟨kind', arguments', children'⟩ := tree
  cases container : kind.isContainer with
  | false =>
    rw [or_iff_right Bool.false_ne_true]
    constructor
    · intro h
      cases children with
      | nil =>
        rw [ofChildren_leaf container] at h
        cases h
        exact ⟨rfl, rfl, rfl, rfl⟩
      | cons child after =>
        rw [ofChildren_leaf_cons container] at h
        cases h
    · rintro ⟨rfl, rfl, rfl, none⟩
      obtain rfl := List.map_eq_nil_iff.mp none
      exact ofChildren_leaf container
  | true =>
    rw [ofChildren_of_container container, Outcome.map_eq_ok]
    constructor
    · rintro ⟨own, built, same⟩
      cases same
      exact ⟨.inl rfl, rfl, rfl, (ownChildren_eq_ok built).symm⟩
    · rintro ⟨-, rfl, rfl, rfl⟩
      exact ⟨_, ownChildren_map kind' children', rfl⟩

/-- Something is built if the kind may have the children. -/
theorem exists_ofChildren_iff : (∃ tree, ofChildren kind arguments children = .ok tree) ↔
    kind.isContainer = false ∧ children = [] ∨
      kind.isContainer = true ∧ ∀ child ∈ children, child.category = c := by
  constructor
  · rintro ⟨tree, built⟩
    obtain ⟨sort, -, -, rfl⟩ := ofChildren_eq_ok.mp built
    have own : ∀ child ∈ tree.children.map toAny, child.category = c := by simp [toAny]
    cases container : kind.isContainer with
    | false => exact .inl ⟨rfl, (or_iff_right (Bool.eq_false_iff.mp container)).mp sort⟩
    | true => exact .inr ⟨rfl, own⟩
  · rintro (⟨leaf, rfl⟩ | ⟨container, own⟩)
    · exact ⟨.node kind arguments [], ofChildren_eq_ok.mpr ⟨.inr rfl, rfl, rfl, rfl⟩⟩
    · obtain ⟨trees, rfl⟩ := exists_own own
      exact ⟨.node kind arguments trees, ofChildren_eq_ok.mpr ⟨.inl container, rfl, rfl, rfl⟩⟩

/-- What cannot be built has a first child to blame: of a leaf the first of all, of a container
the first of another category. -/
theorem ofChildren_eq_error {e : ConstructionError} :
    ofChildren kind arguments children = .error e ↔
      (kind.isContainer = false ∧ ∃ child after, children = child :: after ∧
        e = ⟨kind.keyword, .leafWithNested child.keyword⟩) ∨
      kind.isContainer = true ∧ ∃ before child after, children = before ++ child :: after ∧
        (∀ own ∈ before, own.category = c) ∧ child.category ≠ c ∧
        e = ⟨kind.keyword, .foreignChild child.keyword child.category c⟩ := by
  constructor
  · intro refused
    cases container : kind.isContainer with
    | false =>
      refine .inl ⟨rfl, ?_⟩
      cases children with
      | nil =>
        rw [ofChildren_leaf container] at refused
        cases refused
      | cons child after =>
        rw [ofChildren_leaf_cons container] at refused
        cases refused
        exact ⟨child, after, rfl, rfl⟩
    | true =>
      refine .inr ⟨rfl, ?_⟩
      rcases own_or_foreign c children with own | ⟨before, child, after, rfl, own, foreign⟩
      · obtain ⟨tree, built⟩ := exists_ofChildren_iff.mpr (.inr ⟨container, own⟩)
        rw [built] at refused
        cases refused
      · rw [ofChildren_of_container container, ownChildren_of_foreign kind own foreign] at refused
        cases refused
        exact ⟨before, child, after, rfl, own, foreign, rfl⟩
  · rintro (⟨leaf, child, after, rfl, rfl⟩ | ⟨container, split⟩)
    · exact ofChildren_leaf_cons leaf child
    · obtain ⟨before, child, after, rfl, own, foreign, rfl⟩ := split
      rw [ofChildren_of_container container, ownChildren_of_foreign kind own foreign]
      rfl

/-! ### Arguments as written -/

/-- Literals and constraints mixed to a list of arguments, in which each keep their order. -/
inductive Interleaved : List Literal → List AnyConstraint → List Argument → Prop
  | nil : Interleaved [] [] []
  | literal (value : Literal) {literals constraints items} :
    Interleaved literals constraints items →
      Interleaved (value :: literals) constraints (.literal value :: items)
  | constraint (value : AnyConstraint) {literals constraints items} :
    Interleaved literals constraints items →
      Interleaved literals (value :: constraints) (.constraint value :: items)

theorem Interleaved.parts {literals : List Literal} {constraints : List AnyConstraint}
    {items : List Argument} (h : Interleaved literals constraints items) :
    Argument.literals items = literals ∧ Argument.constraints items = constraints := by
  induction h with
  | nil => exact ⟨rfl, rfl⟩
  | literal value _ ih => exact ⟨congrArg (value :: ·) ih.1, ih.2⟩
  | constraint value _ ih => exact ⟨ih.1, congrArg (value :: ·) ih.2⟩

/-- How literals and constraints are mixed does not matter. -/
theorem Interleaved.ofArguments_eq {literals : List Literal} {constraints : List AnyConstraint}
    {items : List Argument} (h : Interleaved literals constraints items) (kind : Kind c) :
    ofArguments kind items = ofChildren kind literals constraints := by
  obtain ⟨rfl, rfl⟩ := h.parts
  rfl

/-! ### Leaves without children -/

/-- In a tree that fits no leaf has children. -/
theorem leavesBare_of_fits {tree : Constraint c} (h : tree.fits = true) : tree.LeavesBare := by
  induction tree using induct with
  | node kind arguments children ih =>
    rw [fits_node, Bool.and_eq_true, List.all_eq_true] at h
    exact leavesBare_node (isContainer_of_fits h.1) fun child hc => ih child hc (h.2 child hc)

/-- What is built of children of any category has no leaf with children if they have none. -/
theorem leavesBare_of_ofChildren {kind : Kind c} {arguments : List Literal}
    {children : List AnyConstraint} {tree : Constraint c}
    (below : ∀ any ∈ children, any.constraint.LeavesBare)
    (h : ofChildren kind arguments children = .ok tree) : tree.LeavesBare := by
  obtain ⟨sort, rfl, -, rfl⟩ := ofChildren_eq_ok.mp h
  obtain ⟨kind, arguments, children⟩ := tree
  refine leavesBare_node (sort.imp_right List.map_eq_nil_iff.mp) fun child hc => ?_
  exact below child.toAny (List.mem_map_of_mem hc)

end Constraint

/-- A fragment makes a constraint that fits, of the children that are there. -/
theorem Fragment.sound_of_make? {fragment : Fragment c} {tree : Constraint c}
    (made : fragment.make? = some tree) :
    tree.fitsKind = true ∧ ∀ child ∈ tree.children, some child ∈ fragment.recipe.children := by
  have complete : ¬fragment.signature.Lacks := by
    intro lacks
    rw [fragment.make?_eq_none.mpr lacks] at made
    cases made
  rw [make?_eq_some complete] at made
  cases made
  refine ⟨fragment.fits_signature complete, fun child hc => ?_⟩
  change child ∈ fragment.signature.nodes at hc
  rw [← fragment.recipe_follows.nodes] at hc
  simpa [present] using hc

/-! ### Purification -/

namespace Purifier

open Constraint (LeavesBare leavesBare_node)

variable (p : Purifier c)

theorem seenAll_eq (trees : List (Constraint c)) : p.seenAll trees = trees.flatMap p.seen := by
  induction trees with
  | nil => rfl
  | cons tree trees ih => rw [seenAll, ih, List.flatMap_cons]

/-- The hook sees a node last, after what is below it. -/
theorem seen_eq (tree : Constraint c) : p.seen tree =
    (if tree.isContainer then tree.children.flatMap p.seen else []) ++ [p.renewed tree] := by
  obtain ⟨isNew, renewal, -⟩ := p.renew_eq tree
  cases tree with
  | node kind arguments children =>
    rw [Constraint.children] at renewal
    rw [seen, renewal, seenAll_eq]
    rfl

/-- What the hook puts in the place of some nodes has no leaf with children. -/
def ReplacesBare (nodes : List (Constraint c)) : Prop :=
  ∀ node ∈ nodes, ∀ other, p.ask node = .replace other → other.LeavesBare

variable {p}

/-- The node on which the hook rules has no leaf with children if nothing that is left of the
children of a container has one. -/
theorem leavesBare_renewed {tree : Constraint c} (bare : tree.LeavesBare)
    (below : tree.isContainer = true → ∀ child ∈ tree.children, ∀ left,
      p.purify child = some left → left.LeavesBare) : (p.renewed tree).LeavesBare := by
  unfold renewed
  split
  · rename_i container
    obtain ⟨kind, arguments, children⟩ := tree
    refine leavesBare_node (.inl container) fun left hl => ?_
    obtain ⟨child, hc, purified⟩ := List.mem_filterMap.mp hl
    exact below container child hc left purified
  · exact bare

/-- **Purification gives no leaf children**, if the hook puts no tree in the place of a node
in which a leaf has children. -/
theorem leavesBare_purify {tree left : Constraint c} (bare : tree.LeavesBare)
    (replaces : p.ReplacesBare (p.seen tree)) (purified : p.purify tree = some left) :
    left.LeavesBare := by
  induction tree using Constraint.induct generalizing left with
  | node kind arguments children ih =>
    have renewed : (p.renewed (.node kind arguments children)).LeavesBare := by
      refine leavesBare_renewed bare fun container child hc left => ?_
      refine ih child hc (bare.below child hc) fun node seen => replaces node ?_
      rw [seen_eq, if_pos container]
      exact List.mem_append_left _ (List.mem_flatMap.mpr ⟨child, hc, seen⟩)
    have asked : p.renewed (.node kind arguments children) ∈
        p.seen (.node kind arguments children) := by
      rw [seen_eq]
      exact List.mem_append_right _ List.mem_cons_self
    rw [purify_node, Option.bind_eq_some_iff] at purified
    obtain ⟨node, hnode, settled⟩ := purified
    have own : node.LeavesBare := by
      unfold ruled at hnode
      split at hnode
      · cases hnode
        exact renewed
      · rename_i ruling
        cases hnode
        exact replaces _ asked _ ruling
      · cases hnode
    obtain ⟨-, sole | ⟨-, rfl⟩⟩ := p.settled_eq_some settled
    · cases node
      exact own.below left (Constraint.mem_of_soleChild? sole).1
    · exact own

end Purifier

namespace QueryPurifier

open Constraint (toAny)

/-- A part of a purified query is the head, or what is left of a part. -/
theorem mem_parts_purify {p : QueryPurifier} {q : Query} {any : AnyConstraint}
    (part : any ∈ (p.purify q).parts) :
    any ∈ q.parts ∨ ∃ before ∈ q.parts, ∃ left,
      (p.on before.category).purify before.constraint = some left ∧ any = left.toAny := by
  have leftOf {c : Category} {tree : Option (Constraint c)}
      (all : ∀ own ∈ (tree.map toAny).toList, own ∈ q.parts)
      (found : any ∈ ((tree.bind (p.on c).purify).map toAny).toList) :
      ∃ before ∈ q.parts, ∃ left,
        (p.on before.category).purify before.constraint = some left ∧ any = left.toAny := by
    obtain ⟨left, hleft, rfl⟩ := Grammar.mem_toList_map found
    obtain ⟨own, rfl, purified⟩ := Option.bind_eq_some_iff.mp hleft
    exact ⟨own.toAny, all _ (List.mem_singleton_self _), left, purified, rfl⟩
  rw [p.purify_eq] at part
  simp only [Query.parts, List.mem_cons, List.mem_append] at part leftOf ⊢
  rcases part with head | (filterBy | orderBy) | require
  · exact .inl (.inl head)
  · exact .inr (leftOf (fun own ho => .inr (.inl (.inl ho))) filterBy)
  · exact .inr (leftOf (fun own ho => .inr (.inl (.inr ho))) orderBy)
  · exact .inr (leftOf (fun own ho => .inr (.inr ho)) require)

end QueryPurifier

/-! ### The ways to obtain a constraint -/

/-- The constraints that a text is parsed to: itself, or the parts of a query. -/
def Parsed.constraints : Parsed → List AnyConstraint
  | .query q => q.parts
  | .constraint any => [any]
  | .literal _ => []

namespace Constraint

/-- The ways to obtain a constraint. What a hook puts in the place of a node has to be obtained
as well; it may be made of the node that the hook is asked about. -/
inductive Obtained : {c : Category} → Constraint c → Prop
  | leaf {c : Category} {kind : Kind c} {arguments : List Literal} {tree : Constraint c} :
    leaf kind arguments = .ok tree → Obtained tree
  | container {c : Category} {kind : Kind c} {arguments : List Literal}
    {children : List (Constraint c)} {tree : Constraint c} :
    (∀ child ∈ children, Obtained child) → container kind arguments children = .ok tree →
      Obtained tree
  | checked {c : Category} {kind : Kind c} {arguments : List Literal}
    {children : List (Constraint c)} {tree : Constraint c} :
    (∀ child ∈ children, Obtained child) → checked kind arguments children = .ok tree →
      Obtained tree
  | ofChildren {c : Category} {kind : Kind c} {arguments : List Literal}
    {children : List AnyConstraint} {tree : Constraint c} :
    (∀ any ∈ children, Obtained any.constraint) → ofChildren kind arguments children = .ok tree →
      Obtained tree
  | ofArguments {c : Category} {kind : Kind c} {items : List Argument} {tree : Constraint c} :
    (∀ any, .constraint any ∈ items → Obtained any.constraint) →
      ofArguments kind items = .ok tree → Obtained tree
  | composed {c : Category} {fragment : Fragment c} {tree : Constraint c} :
    (∀ child, some child ∈ fragment.recipe.children → Obtained child) →
      fragment.make? = some tree → Obtained tree
  /-- One of the constraints of a fully loaded entity. -/
  | content {extras : List (Option RequireConstraint)} {tree : RequireConstraint} :
    (∀ extra, some extra ∈ extras → Obtained extra) → tree ∈ fullEntityAnd extras →
      Obtained tree
  | parsed {text : List Char} {v : Parsed} {any : AnyConstraint} :
    parse text = .ok v → any ∈ v.constraints → Obtained any.constraint
  | parsedPart {text : List Char} {q : Query} {any : AnyConstraint} :
    parseQuery text = .ok q → any ∈ q.parts → Obtained any.constraint
  | parsedAny {text : List Char} {any : AnyConstraint} :
    parseConstraint text = .ok any → Obtained any.constraint
  | parsedAs {c : Category} {text : List Char} {tree : Constraint c} :
    parseConstraintAs c text = .ok tree → Obtained tree
  | stored {c : Category} {json : Json} {tree : Constraint c} :
    ofJson json = .ok tree → Obtained tree
  | storedAny {json : Json} {any : AnyConstraint} :
    AnyConstraint.ofJson json = .ok any → Obtained any.constraint
  | storedPart {json : Json} {q : Query} {any : AnyConstraint} :
    Query.ofJson json = .ok q → any ∈ q.parts → Obtained any.constraint
  | child {c : Category} {tree child : Constraint c} :
    Obtained tree → child ∈ tree.children → Obtained child
  /-- The node that a hook is asked about, when what is below it is purified. -/
  | asked {c : Category} (p : Purifier c) {tree : Constraint c} : Obtained tree →
    (∀ node ∈ p.seenAll tree.children, ∀ other, p.ask node = .replace other → Obtained other) →
      Obtained (p.renewed tree)
  | purified {c : Category} (p : Purifier c) {tree left : Constraint c} : Obtained tree →
    (∀ node ∈ p.seen tree, ∀ other, p.ask node = .replace other → Obtained other) →
      p.purify tree = some left → Obtained left
  | purifiedPart (p : QueryPurifier) {q : Query} {any : AnyConstraint} :
    (∀ part ∈ q.parts, Obtained part.constraint) →
    (∀ part ∈ q.parts, ∀ node ∈ (p.on part.category).seen part.constraint, ∀ other,
      (p.on part.category).ask node = .replace other → Obtained other) →
      any ∈ (p.purify q).parts → Obtained any.constraint

/-- What is parsed fits at every node. -/
theorem fits_of_parse {text : List Char} {v : Parsed} (h : parse text = .ok v) :
    ∀ any ∈ v.constraints, any.constraint.fits = true := by
  have fits := (Parsed.sound_of_parse h).2
  cases v with
  | query q => exact List.all_eq_true.mp (Bool.and_eq_true_iff.mp fits).1
  | constraint any => exact List.forall_mem_singleton.mpr fits
  | literal l => exact nofun

/-- **However a constraint is obtained, none of its leaves has children.** -/
theorem Obtained.leavesBare {tree : Constraint c} (h : Obtained tree) : tree.LeavesBare := by
  induction h with
  | leaf built =>
    unfold Constraint.leaf at built
    split at built
    · cases built
    · cases built
      exact leavesBare_node (.inr rfl) (by simp)
  | container _ built ih =>
    unfold Constraint.container at built
    split at built
    · rename_i sort
      cases built
      exact leavesBare_node (.inl sort) ih
    · cases built
  | checked _ built ih =>
    rw [← Outcome.toOption_eq_some, toOption_checked, Option.ite_none_right_eq_some] at built
    obtain ⟨fits, same⟩ := built
    cases same
    exact leavesBare_node (isContainer_of_fits fits) ih
  | ofChildren _ built ih => exact leavesBare_of_ofChildren ih built
  | ofArguments _ built ih =>
    refine leavesBare_of_ofChildren (fun any ha => ih any ?_) built
    obtain ⟨item, hitem, same⟩ := List.mem_filterMap.mp ha
    cases item with
    | literal value => cases same
    | constraint value =>
      cases same
      exact hitem
  | @composed c fragment tree _ made ih =>
    obtain ⟨fits, there⟩ := Fragment.sound_of_make? made
    obtain ⟨kind, arguments, children⟩ := tree
    exact leavesBare_node (isContainer_of_fits fits) fun child hc => ih child (there child hc)
  | @content extras tree _ found ih =>
    rw [fullEntityAnd_eq, List.mem_append, List.mem_flatMap] at found
    rcases found with own | ⟨extra, he, there⟩
    · exact leavesBare_of_fits (fits_entityContent tree own)
    · rw [Option.mem_toList] at there
      cases there
      exact ih tree he
  | parsed h part => exact leavesBare_of_fits (fits_of_parse h _ part)
  | parsedPart h part => exact leavesBare_of_fits (fits_of_parse (parse_of_parseQuery h) _ part)
  | parsedAny h =>
    exact leavesBare_of_fits
      (fits_of_parse (parseConstraint_eq_ok.mp h) _ (List.mem_singleton_self _))
  | parsedAs h =>
    exact leavesBare_of_fits
      (fits_of_parse (parse_of_parseConstraintAs h) _ (List.mem_singleton_self _))
  | stored h => exact leavesBare_of_fits (fits_of_ofJson _ h)
  | storedAny h => exact leavesBare_of_fits (AnyConstraint.fits_of_ofJson h)
  | storedPart h part =>
    exact leavesBare_of_fits (List.all_eq_true.mp (Query.fits_of_ofJson h).1 _ part)
  | @child c tree child _ inside ih =>
    cases tree
    exact ih.below child inside
  | @asked c p tree _ _ bare replaces =>
    -- The hook is asked about a node whose children were purified before.
    refine Purifier.leavesBare_renewed bare fun container child hc left purified => ?_
    refine Purifier.leavesBare_purify ?_ ?_ purified
    · cases tree
      exact bare.below child hc
    · intro node seen
      apply replaces node
      rw [Purifier.seenAll_eq]
      exact List.mem_flatMap.mpr ⟨child, hc, seen⟩
  | purified p _ _ purified bare replaces => exact Purifier.leavesBare_purify bare replaces purified
  | purifiedPart p _ _ part bare replaces =>
    rcases QueryPurifier.mem_parts_purify part with own | ⟨before, there, left, purified, rfl⟩
    · exact bare _ own
    · exact Purifier.leavesBare_purify (bare before there) (replaces before there) purified

end Constraint

open Constraint in
/-- **Building constraints keeps to category discipline and loses nothing.** A constraint can be
built of children of any category if it is a leaf without children or a container of children
of its own category, and then it holds what it was built of; otherwise the first child that
stands in the way is to blame. Arguments as written count as their literals and constraints,
however these are mixed. In no constraint, however it is obtained, a leaf has children. -/
theorem construction_is_disciplined :
    (∀ (c : Category) (kind : Kind c) (arguments : List Literal) (children : List AnyConstraint),
      ((∃ tree, ofChildren kind arguments children = .ok tree) ↔
        kind.isContainer = false ∧ children = [] ∨
          kind.isContainer = true ∧ ∀ child ∈ children, child.category = c) ∧
      (∀ tree, ofChildren kind arguments children = .ok tree →
        tree.kind = kind ∧ tree.arguments = arguments ∧ tree.children.map toAny = children) ∧
      ∀ e, ofChildren kind arguments children = .error e ↔
        (kind.isContainer = false ∧ ∃ child after, children = child :: after ∧
          e = ⟨kind.keyword, .leafWithNested child.keyword⟩) ∨
        kind.isContainer = true ∧ ∃ before child after, children = before ++ child :: after ∧
          (∀ own ∈ before, own.category = c) ∧ child.category ≠ c ∧
          e = ⟨kind.keyword, .foreignChild child.keyword child.category c⟩) ∧
    (∀ (c : Category) (kind : Kind c) (literals : List Literal)
      (constraints : List AnyConstraint) (items : List Argument),
      Interleaved literals constraints items →
        ofArguments kind items = ofChildren kind literals constraints) ∧
    ∀ (c : Category) (tree : Constraint c), Obtained tree →
      ∀ node ∈ tree.nodes, node.isContainer = false → node.children = [] := by
  refine ⟨fun c kind arguments children => ⟨exists_ofChildren_iff, ?_, ?_⟩, ?_, ?_⟩
  · intro tree built
    exact (ofChildren_eq_ok.mp built).2
  · exact fun e => ofChildren_eq_error
  · intro c kind literals constraints items mixed
    exact mixed.ofArguments_eq kind
  · intro c tree obtained node found leaf
    apply obtained.leavesBare
    simp [leaves, found, leaf]

/-- Three children, of which a filter is the first. -/
def mixedChildren : List AnyConstraint :=
  [⟨.filter, .node .isNull [.string "a"] []⟩, ⟨.require, .node .attributes [] []⟩,
    ⟨.order, .node .random [] []⟩]

/-- A filter may not hold them because of the second, and a leaf may not because of the first.
What a hook makes of a filter that was parsed has no leaf with children. -/
theorem mixedChildren_refused :
    Constraint.ofChildren Kind.and [] mixedChildren =
      .error ⟨"and", .foreignChild "attributes" .require .filter⟩ ∧
    Constraint.ofArguments Kind.isNull [.constraint ⟨.filter, .node .isNull [.string "a"] []⟩,
      .literal (.string "b")] = .error ⟨"isNull", .leafWithNested "isNull"⟩ ∧
    ∃ left, (flagEquals.on .filter).purify negatedEquals = some left ∧
      ∀ node ∈ left.nodes, node.isContainer = false → node.children = [] := by
  obtain ⟨build, mixed, obtained⟩ := construction_is_disciplined
  refine ⟨?_, ?_, ?_⟩
  · exact ((build _ _ _ _).2.2 _).mpr
      (.inr ⟨rfl, [_], _, _, rfl, by simp, nofun, rfl⟩)
  · rw [mixed _ _ _ _ _ (.constraint _ (.literal _ .nil))]
    exact ((build _ _ _ _).2.2 _).mpr (.inl ⟨rfl, _, _, rfl, rfl⟩)
  · have parsed : parseConstraintAs .filter negatedEquals.text = .ok negatedEquals := by
      rw [← Outcome.toOption_eq_some, toOption_parseConstraintAs_text]
      rfl
    refine ⟨_, rfl, obtained _ _ (.purified (flagEquals.on .filter) (.parsedAs parsed) ?_ rfl)⟩
    intro node _ other ruling
    change flagRuling node = .replace other at ruling
    unfold flagRuling at ruling
    split at ruling
    · cases ruling
      exact .leaf (rfl : Constraint.leaf Kind.isTrue _ = _)
    · cases ruling

end CatalogQuery
