import CatalogQuery.Constraint.Accessors
import CatalogQuery.Proofs.Fragment.Exact
import CatalogQuery.Proofs.Parse.Entries
import CatalogQuery.Proofs.Parse.Soundness

/-!
# Arguments of hierarchies

The place of a hierarchy may be told by an entity type and a key, each a literal. Whether a
leading literal is the entity type is decided by what follows it. The layout of the arguments
counts the literals, the constraint is built of literals and filters apart, and what it says is
read off the number of its literals and the last of them. All three follow one rule.

* `hierarchyItems`: an entity type that may be missing, a key, and filters, as written;
* `ByLookahead`: what is accepted of some items, and what the constraint then says;
* `byLookahead_buildCall`: the rule for a call anywhere in a text;
* `toOption_parse_callText`: what the compact text of a call is parsed to;
* `hierarchies_read_by_lookahead`: the rule for whole texts, and after rendering.
-/

namespace CatalogQuery

open Grammar
open Constraint (written fitsKind)

/-! ### The rule -/

/-- The arguments of a hierarchy as written: the entity type and the key, as far as they are
there, and filters. -/
def hierarchyItems (entityType : Option Literal) (key : Option Int64)
    (filters : List FilterConstraint) : List Argument :=
  written (entityType.toList ++ key.toList.map Literal.int) filters

/-- The kind of a hierarchy below a node with a key, or below a root. -/
def hierarchyKind (keyed : Bool) : Kind .filter :=
  if keyed then .withinHierarchy else .withinRootHierarchy

/-- Items are accepted as the arguments of a hierarchy if they are an entity type, which may be
missing, a key exactly if the hierarchy has one, and filters. Then this is what the constraint
says. -/
structure ByLookahead (keyed : Bool) (items : List Argument)
    (outcome : Except ParseError AnyConstraint) : Prop where
  accepted : (∃ any, outcome = .ok any) ↔ ∃ entityType key filters,
    key.isSome = keyed ∧ items = hierarchyItems entityType key filters
  reads : ∀ entityType key filters, key.isSome = keyed →
    items = hierarchyItems entityType key filters →
    ∃ node : FilterConstraint, outcome = .ok node.toAny ∧ node.hierarchyKey? = key ∧
      node.entityType? = entityType ∧ node.children = filters

/-- Literals end with a key if they are a whole number after at most one literal. -/
theorem endsWithKey_iff {literals : List Literal} :
    Shape.endsWithKey (literals.map Slot.literal) = true ↔
      ∃ (entityType : Option Literal) (key : Int64),
        literals = entityType.toList ++ [.int key] := by
  have isInt (l : Literal) : (Slot.literal l).isInt = true ↔ ∃ key, l = .int key := by
    cases l <;> simp [Slot.isInt]
  constructor
  · intro ends
    match literals with
    | [] => cases ends
    | [own] =>
      obtain ⟨key, rfl⟩ := (isInt own).mp ends
      exact ⟨none, key, rfl⟩
    | [entityType, own] =>
      obtain ⟨key, rfl⟩ := (isInt own).mp ends
      exact ⟨some entityType, key, rfl⟩
    | _ :: _ :: _ :: _ => cases ends
  · rintro ⟨entityType, key, rfl⟩
    cases entityType <;> rfl

/-- At most one literal is an entity type that may be missing. -/
theorem length_le_one_iff {literals : List Literal} :
    literals.length ≤ 1 ↔ ∃ entityType : Option Literal, literals = entityType.toList := by
  constructor
  · intro few
    match literals with
    | [] => exact ⟨none, rfl⟩
    | [entityType] => exact ⟨some entityType, rfl⟩
    | _ :: _ :: _ => simp at few
  · rintro ⟨entityType, rfl⟩
    exact Option.length_toList_le

/-- The literals of a hierarchy that fits are an entity type, which may be missing, and a key
exactly if it has one. -/
theorem fitsKind_hierarchy {keyed : Bool} {literals : List Literal}
    {filters : List FilterConstraint} :
    fitsKind (.node (hierarchyKind keyed) literals filters) = true ↔
      ∃ (entityType : Option Literal) (key : Option Int64), key.isSome = keyed ∧
        literals = entityType.toList ++ key.toList.map Literal.int := by
  cases keyed with
  | true =>
    have layout : fitsKind (.node (hierarchyKind true) literals filters) =
        Shape.endsWithKey (literals.map Slot.literal) := by
      simp [fitsKind, hierarchyKind, Kind.shapes, Kind.entry, CatalogEntry.openContainer,
        Shape.fitsParts, Shape.fits, Shape.splitLiterals_slotsOf, Slot.isOf]
    rw [layout, endsWithKey_iff]
    constructor
    · rintro ⟨entityType, key, rfl⟩
      exact ⟨entityType, some key, rfl, rfl⟩
    · rintro ⟨entityType, key, there, rfl⟩
      obtain ⟨key, rfl⟩ := Option.isSome_iff_exists.mp there
      exact ⟨entityType, key, rfl⟩
  | false =>
    have layout : fitsKind (.node (hierarchyKind false) literals filters) =
        decide (literals.length ≤ 1) := by
      simp [fitsKind, hierarchyKind, Kind.shapes, Kind.entry, CatalogEntry.openContainer,
        Shape.fitsParts, Shape.fits, Shape.splitLiterals_slotsOf, Slot.isOf]
    rw [layout, decide_eq_true_iff, length_le_one_iff]
    constructor
    · rintro ⟨entityType, rfl⟩
      exact ⟨entityType, none, rfl, by simp⟩
    · rintro ⟨entityType, key, missing, rfl⟩
      obtain rfl := Option.isNone_iff_eq_none.mp (by simpa using missing)
      exact ⟨entityType, by simp⟩

/-- What a hierarchy says is read off the number of its literals and the last of them. -/
theorem says_hierarchy {keyed : Bool} (entityType : Option Literal) {key : Option Int64}
    (sort : key.isSome = keyed) (filters : List FilterConstraint) :
    let node : FilterConstraint :=
      .node (hierarchyKind keyed) (entityType.toList ++ key.toList.map Literal.int) filters
    node.hierarchyKey? = key ∧ node.entityType? = entityType := by
  subst sort
  cases key <;> cases entityType <;> exact ⟨rfl, rfl⟩

/-- **A call of a hierarchy is read by the rule**, wherever it stands. -/
theorem byLookahead_buildCall (keyed : Bool) (items : List Argument) (site : Site) :
    ByLookahead keyed items (buildCall site (hierarchyKind keyed).keyword items) := by
  rw [buildCall, lookup?_keyword]
  have reads : ∀ entityType key filters, key.isSome = keyed →
      items = hierarchyItems entityType key filters →
      build site (hierarchyKind keyed) items = .ok (Constraint.node (hierarchyKind keyed)
        (entityType.toList ++ key.toList.map Literal.int) filters).toAny := by
    rintro entityType key filters sort rfl
    exact build_eq_ok.mpr ⟨_, _, rfl, rfl, fitsKind_hierarchy.mpr ⟨entityType, key, sort, rfl⟩⟩
  constructor
  · constructor
    · rintro ⟨any, built⟩
      obtain ⟨literals, filters, rfl, -, fits⟩ := build_eq_ok.mp built
      obtain ⟨entityType, key, sort, rfl⟩ := fitsKind_hierarchy.mp fits
      exact ⟨entityType, key, filters, sort, rfl⟩
    · rintro ⟨entityType, key, filters, sort, same⟩
      exact ⟨_, reads entityType key filters sort same⟩
  · intro entityType key filters sort same
    obtain ⟨ownKey, ownType⟩ := says_hierarchy entityType sort filters
    exact ⟨_, reads entityType key filters sort same, ownKey, ownType, rfl⟩

/-! ### Whole texts -/

def IsCall (text : List Char) (keyword : String) (items : List Argument) : Prop :=
  ∃ source raws, readRoot text = .ok (.call keyword source raws) ∧
    resolveAll text raws = .ok items

/-- A text that is a call is parsed to what the call makes of its arguments. -/
theorem parseConstraint_of_isCall {text : List Char} {keyword : String} {items : List Argument}
    (h : IsCall text keyword items) (single : keyword ≠ Query.keyword) :
    ∃ site, parseConstraint text = buildCall site keyword items := by
  obtain ⟨source, raws, root, resolved⟩ := h
  refine ⟨⟨text, source⟩, ?_⟩
  have whole : parse text = (buildCall ⟨text, source⟩ keyword items).map .constraint := by
    rw [parse_of_readRoot root, resolveRoot, if_neg single, resolved]
    rfl
  rw [parseConstraint, whole]
  cases buildCall ⟨text, source⟩ keyword items <;> rfl

/-! ### Compact texts -/

namespace Argument

def text : Argument → List Char
  | .literal l => l.text
  | .constraint any => any.text

def normal : Argument → Argument
  | .literal l => .literal l.normal
  | .constraint any => .constraint any.normal

/-- Whether the text of an argument says anything. -/
def sound : Argument → Bool
  | .literal l => l.readable
  | .constraint any => any.readable && any.fits

/-- The text of an argument is parsed exactly if it says something. -/
theorem exists_parse_iff {item : Argument} :
    (∃ v, parse item.text = .ok v) ↔ item.sound = true := by
  cases item with
  | literal l => simp [text, sound, Outcome.eq_ok_iff (toOption_parse_literal l)]
  | constraint any =>
    simp [text, sound, AnyConstraint.text, AnyConstraint.readable, AnyConstraint.fits,
      Outcome.eq_ok_iff (toOption_parse_constraint any.constraint)]

def spelling : Argument → Spelling Argument
  | .literal l => l.argument
  | .constraint any => any.constraint.spelling .constraint .compact 0

theorem value_spelling (item : Argument) :
    item.spelling.value = if item.sound then some item.normal else none := by
  cases item with
  | literal l =>
    rw [spelling, Literal.argument, Literal.spelling, sound]
    cases l.readable <;> rfl
  | constraint any => rfl

theorem text_spelling (item : Argument) : item.spelling.text = item.text := by
  cases item <;> rfl

theorem opens_spelling (item : Argument) : Opens item.spelling.text := by
  cases item with
  | literal l => exact opens_text l
  | constraint any => exact opens_render Layout.spaced_compact 0 any.constraint

theorem readBy_spelling (item : Argument) {depth : Nat} (hd : item.spelling.text.length ≤ depth) :
    item.spelling.ReadBy (readNode depth) RawNode.meaning? := by
  cases item with
  | literal l =>
    have literal (value : Literal) :
        (RawNode.literal value).meaning? = some (Argument.literal value) := rfl
    exact readNode_literal literal l hd
  | constraint any => exact readNode_tree Layout.spaced_compact any.constraint 0 hd

end Argument

/-- The arguments of a call in a text have texts that are parsed. -/
theorem IsCall.parsed {text : List Char} {keyword : String} {items : List Argument}
    (h : IsCall text keyword items) : ∀ item ∈ items, ∃ v, parse item.text = .ok v := by
  obtain ⟨source, raws, root, resolved⟩ := h
  obtain ⟨tokens, spelled, -⟩ := spells_of_readRoot root
  have read : (RawNode.call keyword source raws).AllRead fun l => l.readable = true :=
    allRead_of_spelled spelled fun _ _ _ found => found.readable
  cases read with
  | call _ _ _ each =>
    simp only [← Outcome.toOption_eq_some, toOption_resolveAll, toOption_resolve] at resolved
    intro item hitem
    have sound := sound_of_mapM each resolved item hitem
    apply Argument.exists_parse_iff.mpr
    cases item with
    | literal l => exact sound
    | constraint any =>
      obtain ⟨readable, fits⟩ := sound
      rw [Argument.sound, fits, Bool.and_true, AnyConstraint.readable, Constraint.readable_eq]
      exact List.all_eq_true.mpr readable

/-- A keyword with the texts of its arguments in brackets. -/
def callText (keyword : String) (items : List Argument) : List Char :=
  keyword.toList ++ Layout.flat (items.map Argument.text)

/-- What is built of arguments has the text of the call. -/
theorem text_of_buildCall {site : Site} {keyword : String} {items : List Argument}
    {any : AnyConstraint} (h : buildCall site keyword items = .ok any) :
    any.text = callText keyword items := by
  obtain ⟨c, kind, rfl, built⟩ := buildCall_eq_ok.mp h
  obtain ⟨literals, children, rfl, rfl, -⟩ := build_eq_ok.mp built
  simp only [callText, written, List.map_append, List.map_map]
  exact Constraint.text_node kind literals children

/-- **The compact text of a call is parsed to what is built of its arguments**, as their texts
say them. -/
theorem toOption_parse_callText {c : Category} (kind : Kind c) {items : List Argument}
    (parsed : ∀ item ∈ items, ∃ v, parse item.text = .ok v) :
    (parse (callText kind.keyword items)).toOption =
      (built? kind.keyword (items.map Argument.normal)).map Parsed.constraint := by
  have call (source : List Char) (raws : List RawNode) :
      (RawNode.call (String.ofList kind.keyword.toList) source raws).rootMeaning? =
        (raws.mapM RawNode.meaning?).bind fun arguments =>
          (built? kind.keyword arguments).map Parsed.constraint := by
    rw [String.ofList_toList]
    exact toOption_resolveRoot_call (keyword_ne_query kind) [] source raws
  have opens : ∀ s ∈ items.map Argument.spelling, Opens s.text :=
    List.forall_mem_map.mpr fun item _ => item.opens_spelling
  have texts : (items.map Argument.spelling).map Spelling.text = items.map Argument.text := by
    rw [List.map_map]
    exact List.map_congr_left fun item _ => item.text_spelling
  obtain ⟨count, short⟩ := bounds_intercalate [','] opens
  rw [texts] at count short
  have length : ([','].intercalate (items.map Argument.text)).length ≤
      (callText kind.keyword items).length := by
    simp only [callText, Layout.flat, List.length_append, List.length_cons]
    omega
  have read : ∀ s ∈ items.map Argument.spelling,
      s.ReadBy (readNode (callText kind.keyword items).length) RawNode.meaning? := by
    intro s hs
    have fits := (short s hs).trans length
    obtain ⟨item, -, rfl⟩ := List.mem_map.mp hs
    exact item.readBy_spelling fits
  have node := readNode_call (word_keyword kind) call blank_nil blank_nil blank_nil opens read
    (count.trans (length.trans (Nat.le_succ _)))
  have values : valuesOf (items.map Argument.spelling) = some (items.map Argument.normal) := by
    rw [valuesOf_map fun item _ => item.value_spelling, if_pos]
    apply List.all_eq_true.mpr
    intro item hitem
    exact Argument.exists_parse_iff.mp (parsed item hitem)
  rw [values, texts, List.nil_append, List.append_nil, Option.bind_some] at node
  exact toOption_parse_spelled (s := ⟨callText kind.keyword items, _⟩)
    (opens_word (word_keyword kind) _) node

/-- The compact text of a call is read as the call on what the texts of its arguments say. -/
theorem outcome_of_callText {c : Category} (kind : Kind c) {items : List Argument}
    (parsed : ∀ item ∈ items, ∃ v, parse item.text = .ok v) (site : Site) :
    (parseConstraint (callText kind.keyword items)).toOption =
      (buildCall site kind.keyword (items.map Argument.normal)).toOption := by
  rw [toOption_parseConstraint, toOption_parse_callText kind parsed, toOption_buildCall]
  cases built? kind.keyword (items.map Argument.normal) <;> rfl

/-- Something is built of arguments if they fit a shape of the kind. -/
theorem exists_build_iff {c : Category} (kind : Kind c) (items : List Argument) (site : Site) :
    (∃ any, build site kind items = .ok any) ↔
      kind.shapes.any (·.fitsArguments items) = true := by
  constructor
  · rintro ⟨any, built⟩
    obtain ⟨literals, children, rfl, -, fits⟩ := build_eq_ok.mp built
    rw [fitsArguments_written]
    exact fits
  · intro fits
    obtain ⟨tree, built⟩ := build_of_fits site fits
    exact ⟨_, built⟩

/-- No shape can tell arguments from what their texts say. -/
theorem fitsArguments_normal (shape : Shape) (items : List Argument) :
    shape.fitsArguments (items.map Argument.normal) = shape.fitsArguments items := by
  have slots : (items.map Argument.normal).map Argument.slot =
      (items.map Argument.slot).map (Shape.mapSlot Literal.normal) := by
    rw [List.map_map, List.map_map]
    apply List.map_congr_left
    intro item _
    cases item <;> rfl
  rw [Shape.fitsArguments, slots, Shape.fits_map (Shape.unseen_mapSlot Literal.kind_normal)]
  rfl

/-- A call on what the texts of arguments say is accepted if the call on the arguments is. -/
theorem accepted_normal {c : Category} (kind : Kind c) (items : List Argument) (site : Site) :
    (∃ any, buildCall site kind.keyword (items.map Argument.normal) = .ok any) ↔
      ∃ any, buildCall site kind.keyword items = .ok any := by
  simp only [buildCall, lookup?_keyword, exists_build_iff, fitsArguments_normal]

theorem hierarchyItems_normal (entityType : Option Literal) (key : Option Int64)
    (filters : List FilterConstraint) :
    (hierarchyItems entityType key filters).map Argument.normal =
      hierarchyItems (entityType.map Literal.normal) key (filters.map Constraint.normal) := by
  simp only [hierarchyItems, written, List.map_append, List.map_map]
  cases entityType <;> cases key <;> rfl

/-- The rule only asks for the constraint of an outcome, not for the error. -/
theorem ByLookahead.congr {keyed : Bool} {items : List Argument}
    {outcome outcome' : Except ParseError AnyConstraint} (h : ByLookahead keyed items outcome)
    (same : outcome'.toOption = outcome.toOption) : ByLookahead keyed items outcome' := by
  have ok (any : AnyConstraint) : outcome' = .ok any ↔ outcome = .ok any := by
    rw [← Outcome.toOption_eq_some, same, Outcome.toOption_eq_some]
  constructor
  · simp only [ok, h.accepted]
  · simp only [ok]
    exact h.reads

/-- **The arguments of a hierarchy are read by the lookahead rule and nothing else.** A call is
accepted if its arguments are a key, or any literal and a key, and then filters; below a root
they are at most one literal and then filters. The key, the entity type and the children are
those that the rule tells. That holds of a call on any arguments, wherever it stands, and of a
text that is such a call. It holds up to the forms of literals of the compact text of a call, if
the texts of its arguments can be read, as those of the arguments in a text can. -/
theorem hierarchies_read_by_lookahead (items : List Argument) :
    (∀ site, ByLookahead true items (buildCall site "withinHierarchy" items) ∧
      ByLookahead false items (buildCall site "withinRootHierarchy" items)) ∧
    (∀ text, (IsCall text "withinHierarchy" items →
        ByLookahead true items (parseConstraint text)) ∧
      (IsCall text "withinRootHierarchy" items →
        ByLookahead false items (parseConstraint text))) ∧
    (∀ text keyword, IsCall text keyword items → ∀ item ∈ items, ∃ v, parse item.text = .ok v) ∧
    (∀ site keyword any, buildCall site keyword items = .ok any →
      any.text = callText keyword items) ∧
    ((∀ item ∈ items, ∃ v, parse item.text = .ok v) → ∀ keyed,
      let reread := parseConstraint (callText (hierarchyKind keyed).keyword items)
      ((∃ any, reread = .ok any) ↔ ∃ entityType key filters, key.isSome = keyed ∧
        items = hierarchyItems entityType key filters) ∧
      ∀ entityType key filters, key.isSome = keyed →
        items = hierarchyItems entityType key filters →
        ∃ node : FilterConstraint, reread = .ok node.toAny ∧ node.hierarchyKey? = key ∧
          Option.Rel (fun l l' => l.equal l' = true) entityType node.entityType? ∧
          Constraint.equalAll filters node.children = true) := by
  refine ⟨fun site => ?_, fun text => ⟨fun call => ?_, fun call => ?_⟩,
    fun text keyword call => call.parsed, ?_, fun parsed keyed => ?_⟩
  · exact ⟨byLookahead_buildCall true items site, byLookahead_buildCall false items site⟩
  · obtain ⟨site, same⟩ := parseConstraint_of_isCall call (by decide)
    exact same ▸ byLookahead_buildCall true items site
  · obtain ⟨site, same⟩ := parseConstraint_of_isCall call (by decide)
    exact same ▸ byLookahead_buildCall false items site
  · exact fun site keyword any => text_of_buildCall
  · have rule := byLookahead_buildCall keyed (items.map Argument.normal) ⟨[], []⟩
    have reread := rule.congr (outcome_of_callText (hierarchyKind keyed) parsed ⟨[], []⟩)
    constructor
    · rw [reread.accepted, ← rule.accepted, accepted_normal,
        (byLookahead_buildCall keyed items ⟨[], []⟩).accepted]
    · rintro entityType key filters sort rfl
      obtain ⟨node, outcome, ownKey, ownType, children⟩ :=
        reread.reads _ key _ sort (hierarchyItems_normal entityType key filters)
      refine ⟨node, outcome, ownKey, ?_, ?_⟩
      · rw [ownType]
        cases entityType with
        | none => exact .none
        | some l => exact .some l.equal_normal
      · rw [children]
        exact Constraint.equalAll_map fun filter _ => filter.equal_normal

def directRelation : FilterConstraint := .node .directRelation [] []

/-- Two whole numbers and a filter. -/
def keyedItems : List Argument :=
  [.literal (.int 1), .literal (.int 2), .constraint directRelation.toAny]

/-- Two whole numbers and a filter before they are resolved. -/
def keyedRaws : List RawNode :=
  [.literal (.int 1), .literal (.int 2), .call "directRelation" "directRelation())".toList []]

theorem keyedItems_read :
    (∃ node : FilterConstraint,
      parseConstraint "withinHierarchy(1, 2, directRelation())".toList = .ok node.toAny ∧
      node.hierarchyKey? = some 2 ∧ node.entityType? = some (.int 1) ∧
      node.children = [directRelation]) ∧
    (¬∃ any, parseConstraint "withinRootHierarchy(1, 2, directRelation())".toList = .ok any) ∧
    ∃ any, parseConstraint (callText "withinHierarchy" keyedItems) = .ok any := by
  obtain ⟨-, texts, parsed, -, reread⟩ := hierarchies_read_by_lookahead keyedItems
  have call : IsCall "withinHierarchy(1, 2, directRelation())".toList "withinHierarchy"
      keyedItems :=
    ⟨"withinHierarchy(1, 2, directRelation())".toList, keyedRaws, rfl, rfl⟩
  refine ⟨?_, ?_, ?_⟩
  · exact ((texts _).1 call).reads (some (.int 1)) (some 2) [directRelation] rfl rfl
  · have call : IsCall "withinRootHierarchy(1, 2, directRelation())".toList
        "withinRootHierarchy" keyedItems :=
      ⟨"withinRootHierarchy(1, 2, directRelation())".toList, keyedRaws, rfl, rfl⟩
    rw [((texts _).2 call).accepted]
    rintro ⟨entityType, key, filters, missing, same⟩
    cases key <;> cases missing
    have literals := congrArg Argument.literals same
    rw [hierarchyItems, Constraint.literals_written] at literals
    cases entityType <;> cases literals
  · exact (reread (parsed _ _ call) true).1.mpr ⟨some (.int 1), some 2, [directRelation], rfl, rfl⟩

end CatalogQuery
