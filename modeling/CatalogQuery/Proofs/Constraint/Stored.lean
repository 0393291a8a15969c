import CatalogQuery.Constraint.Json
import CatalogQuery.Proofs.Constraint.Acceptance
import CatalogQuery.Proofs.Literal.Stored

namespace CatalogQuery.Constraint

open Json (accepted mapCause wanted)

variable {c : Category}

def zoned (tree : Constraint c) : List ZonedDateTime :=
  tree.nodes.flatMap fun node => node.arguments.flatMap Literal.zoned

mutual

/-- The constraint that the stored form of a constraint with whole offsets says. -/
def stored : Constraint c → Constraint c
  | .node kind arguments children => .node kind (arguments.map Literal.stored) (storedAll children)

def storedAll : List (Constraint c) → List (Constraint c)
  | [] => []
  | first :: rest => stored first :: storedAll rest

end

variable (kind : Kind c) (arguments : List Literal) (children : List (Constraint c))

theorem zoned_node : zoned (.node kind arguments children) =
    arguments.flatMap Literal.zoned ++ children.flatMap zoned := by
  rw [zoned, nodes_node, List.flatMap_cons, List.flatMap_assoc]
  rfl

theorem storedAll_eq : storedAll children = children.map stored := by
  induction children with
  | nil => rfl
  | cons child children ih => rw [storedAll, ih, List.map_cons]

theorem stored_node : stored (.node kind arguments children) =
    .node kind (arguments.map Literal.stored) (children.map stored) := by
  rw [stored, storedAll_eq]

@[simp] theorem kind_stored (tree : Constraint c) : tree.stored.kind = tree.kind := by
  cases tree
  rfl

theorem equal_stored (tree : Constraint c) : tree.equal tree.stored = true := by
  induction tree using induct with
  | node kind arguments children ih =>
    have literals : Literal.equalAll arguments (arguments.map Literal.stored) = true :=
      Literal.equalAll_map fun l _ => l.equal_stored
    rw [stored_node, equal, literals, equalAll_map ih, beq_self_eq_true]
    rfl

/-! ### The parts of a node -/

theorem listToJson_eq : listToJson children = children.map toJson := by
  induction children with
  | nil => rfl
  | cons child children ih => rw [listToJson, ih, List.map_cons]

theorem lookup?_listMember (name other : String) (items : List Json)
    (rest : List (String × Json)) : Json.lookup? name (listMember other items ++ rest) =
      if other = name ∧ items ≠ [] then some (.array items) else Json.lookup? name rest := by
  cases items with
  | nil => simp [listMember]
  | cons item items =>
    by_cases same : other = name
    · simp [listMember, Json.lookup?, same]
    · simp [listMember, Json.lookup?, same]

theorem arguments_toJson : (toJson (.node kind arguments children)).field? 1 "arguments" =
    if arguments = [] then none else some (.array (arguments.map Literal.toJson)) := by
  rw [toJson, Json.field?, List.append_assoc, lookup?_listMember, lookup?_listMember]
  cases arguments with
  | nil => rfl
  | cons first rest => rfl

theorem children_toJson : (toJson (.node kind arguments children)).field? 2 "children" =
    if children = [] then none else some (.array (children.map toJson)) := by
  rw [toJson, Json.field?, List.append_assoc, lookup?_listMember, lookup?_listMember,
    listToJson_eq]
  cases children with
  | nil => rfl
  | cons first rest => rfl

theorem kind_toJson : kindOfJson? c (toJson (.node kind arguments children)) = some kind := by
  have field : (toJson (.node kind arguments children)).field? 0 "kind" =
      some (.string kind.keyword) := by
    rw [toJson, Json.field?, List.append_assoc, lookup?_listMember, lookup?_listMember]
    rfl
  rw [kindOfJson?, field]
  exact Kind.ofKeyword?_keyword kind

/-- What is read of a stored node: its arguments, its children, and the checks. -/
theorem ofJson_toJson_node : ofJson (toJson (.node kind arguments children)) = (do
    let arguments ← mapCause .literal (Literal.listOfJson (arguments.map Literal.toJson))
    let children ← listOfJson (children.map toJson)
    mapCause .construction (accepted (checked kind arguments children))) := by
  have literals : argumentsOfJson (toJson (.node kind arguments children)) =
      mapCause .literal (Literal.listOfJson (arguments.map Literal.toJson)) := by
    rw [argumentsOfJson, arguments_toJson]
    cases arguments with
    | nil => rw [List.map_nil, Literal.listOfJson]; rfl
    | cons first rest => rfl
  have named : (toJson (.node kind arguments children)).isPositional = false := by
    rw [toJson]
    rfl
  have parts (below : Except (Json.DecodeError QueryError) (List (Constraint c))) :
      ofParts (toJson (.node kind arguments children))
        (wanted (kindOfJson? c (toJson (.node kind arguments children))))
        (argumentsOfJson (toJson (.node kind arguments children))) below = (do
      let arguments ← mapCause .literal (Literal.listOfJson (arguments.map Literal.toJson))
      let children ← below
      mapCause .construction (accepted (checked kind arguments children))) := by
    rw [ofParts, named, literals, kind_toJson]
    rfl
  have below := children_toJson kind arguments children
  rw [ofJson]
  split
  · rename_i none
    rw [parts]
    rw [none] at below
    cases children with
    | nil => rw [List.map_nil, listOfJson]
    | cons first rest => cases below
  · rename_i value some
    rw [parts]
    rw [some] at below
    cases children with
    | nil => cases below
    | cons first rest =>
      cases below
      rw [arrayOfJson]

/-! ### Whole offsets -/

theorem listOfJson_eq (items : List Json) :
    (listOfJson items : Json.Decoded QueryError (List (Constraint c))) = items.mapM ofJson := by
  induction items with
  | nil => rw [listOfJson, List.mapM_nil]; rfl
  | cons item items ih => rw [listOfJson, List.mapM_cons, ih]

theorem listOfJson_map {trees : List (Constraint c)} {f : Constraint c → Constraint c}
    (h : ∀ tree ∈ trees, ofJson tree.toJson = .ok (f tree)) :
    listOfJson (trees.map toJson) = .ok (trees.map f) := by
  rw [listOfJson_eq, Outcome.mapM_eq_ok, List.forall₂_map_left_iff, List.forall₂_map_right_iff,
    List.forall₂_same]
  exact h

/-- A stored constraint that fits and has whole offsets is read back, but for the signs of
zeros. -/
theorem ofJson_toJson {tree : Constraint c} (fits : tree.fits = true)
    (years : ∀ z ∈ tree.zoned, z.HasPlainYear) (whole : ∀ z ∈ tree.zoned, z.HasWholeOffset) :
    ofJson tree.toJson = .ok tree.stored := by
  induction tree using induct with
  | node kind arguments children ih =>
    rw [zoned_node, List.forall_mem_append] at years whole
    rw [fits_node, Bool.and_eq_true, List.all_eq_true] at fits
    obtain ⟨own, below⟩ := fits
    have literals : Literal.listOfJson (arguments.map Literal.toJson) =
        .ok (arguments.map Literal.stored) := by
      apply Literal.listOfJson_map
      intro l hl
      apply l.ofJson_toJson
      · intro z hz
        exact years.1 z (List.mem_flatMap_of_mem hl hz)
      · intro z hz
        exact whole.1 z (List.mem_flatMap_of_mem hl hz)
    have nested : listOfJson (children.map toJson) = .ok (children.map stored) := by
      apply listOfJson_map
      intro child hc
      apply ih child hc (below child hc)
      · intro z hz
        exact years.2 z (List.mem_flatMap_of_mem hc hz)
      · intro z hz
        exact whole.2 z (List.mem_flatMap_of_mem hc hz)
    have checked : checked kind (arguments.map Literal.stored) (children.map stored) =
        .ok (.node kind (arguments.map Literal.stored) (children.map stored)) := by
      rw [← Outcome.toOption_eq_some, toOption_checked, fitsKind_map Literal.kind_stored, if_pos own]
    rw [ofJson_toJson_node, stored_node]
    apply Outcome.bind_of_ok (mapCause_eq_ok.mpr literals)
    apply Outcome.bind_of_ok nested
    exact mapCause_eq_ok.mpr (accepted_eq_ok.mpr checked)

/-! ### Other offsets -/

/-- The members of a list that reads back as an equal one read back as equal ones. -/
theorem readsBack_of_listOfJson {trees trees' : List (Constraint c)}
    (h : listOfJson (trees.map toJson) = .ok trees') (same : equalAll trees trees' = true) :
    ∀ tree ∈ trees, ∃ tree', ofJson tree.toJson = .ok tree' ∧ tree.equal tree' = true := by
  rw [listOfJson_eq, Outcome.mapM_eq_ok, List.forall₂_map_left_iff] at h
  exact Outcome.exists_of_forall₂ h (equalAll_iff.mp same)

/-- A constraint that reads back as an equal one has whole offsets. -/
theorem whole_of_readsBack {tree tree' : Constraint c} (years : ∀ z ∈ tree.zoned, z.HasPlainYear)
    (h : ofJson tree.toJson = .ok tree') (same : tree.equal tree' = true) :
    ∀ z ∈ tree.zoned, z.HasWholeOffset := by
  induction tree using induct generalizing tree' with
  | node kind arguments children ih =>
    rw [ofJson_toJson_node] at h
    obtain ⟨arguments', harguments, h⟩ := Outcome.bind_eq_ok.mp h
    obtain ⟨children', hchildren, h⟩ := Outcome.bind_eq_ok.mp h
    have built := accepted_eq_ok.mp (mapCause_eq_ok.mp h)
    rw [← Outcome.toOption_eq_some, toOption_checked, Option.ite_none_right_eq_some] at built
    cases built.2
    rw [equal, Bool.and_eq_true, Bool.and_eq_true] at same
    obtain ⟨⟨-, literals⟩, nested⟩ := same
    rw [zoned_node, List.forall_mem_append] at years ⊢
    constructor
    · intro z hz
      obtain ⟨l, hl, hz⟩ := List.mem_flatMap.mp hz
      obtain ⟨l', read, equal⟩ :=
        Literal.readsBack_of_listOfJson (mapCause_eq_ok.mp harguments) literals l hl
      refine Literal.whole_of_readsBack ?_ read equal z hz
      intro z hz
      exact years.1 z (List.mem_flatMap_of_mem hl hz)
    · intro z hz
      obtain ⟨child, hc, hz⟩ := List.mem_flatMap.mp hz
      obtain ⟨child', read, equal⟩ := readsBack_of_listOfJson hchildren nested child hc
      refine ih child hc ?_ read equal z hz
      intro z hz
      exact years.2 z (List.mem_flatMap_of_mem hc hz)

end CatalogQuery.Constraint
