import CatalogQuery.Proofs.Constraint.Stored
import CatalogQuery.Proofs.Query.Normal
import CatalogQuery.Query.Json

namespace CatalogQuery

open Json (DecodeError accepted mapCause)

/-! ### Stored lists -/

/-- Values that are read of a stored list, which may be left out. -/
def ReadsList {ε α : Type} (read : Json → Except ε α) (stored : Option Json) (values : List α) :
    Prop :=
  stored = none ∧ values = [] ∨
    ∃ items, stored = some (.array items) ∧ items.mapM read = .ok values

namespace ReadsList

variable {ε α : Type} {read : Json → Except ε α} {stored : Option Json} {values : List α}

theorem exists_item (h : ReadsList read stored values) :
    ∀ a ∈ values, ∃ items, stored = some (.array items) ∧ ∃ item ∈ items, read item = .ok a := by
  rcases h with ⟨-, rfl⟩ | ⟨items, field, each⟩
  · simp
  · exact fun a ha => ⟨items, field, (Outcome.mem_of_mapM each).2 a ha⟩

theorem exists_value (h : ReadsList read stored values) {items : List Json}
    (field : stored = some (.array items)) : ∀ item ∈ items, ∃ a ∈ values, read item = .ok a := by
  rcases h with ⟨none, -⟩ | ⟨items', field', each⟩
  · rw [field] at none
    cases none
  · rw [field] at field'
    cases field'
    exact (Outcome.mem_of_mapM each).1

end ReadsList

namespace Constraint

variable {c : Category}

/-- What is read of the parts of a constraint has passed the checks. -/
theorem ofParts_eq_ok {json : Json} {kind : Except (DecodeError QueryError) (Kind c)}
    {arguments : Except (DecodeError QueryError) (List Literal)}
    {children : Except (DecodeError QueryError) (List (Constraint c))} {tree : Constraint c}
    (h : ofParts json kind arguments children = .ok tree) :
    ∃ k a cs, arguments = .ok a ∧ children = .ok cs ∧ checked k a cs = .ok tree := by
  unfold ofParts at h
  split at h
  · obtain ⟨k, -, h⟩ := Outcome.bind_eq_ok.mp h
    obtain ⟨a, ha, h⟩ := Outcome.bind_eq_ok.mp h
    obtain ⟨cs, hcs, h⟩ := Outcome.bind_eq_ok.mp h
    obtain ⟨-, -, h⟩ := Outcome.bind_eq_ok.mp h
    exact ⟨k, a, cs, ha, hcs, accepted_eq_ok.mp (mapCause_eq_ok.mp h)⟩
  · obtain ⟨a, ha, h⟩ := Outcome.bind_eq_ok.mp h
    obtain ⟨cs, hcs, h⟩ := Outcome.bind_eq_ok.mp h
    obtain ⟨k, -, h⟩ := Outcome.bind_eq_ok.mp h
    exact ⟨k, a, cs, ha, hcs, accepted_eq_ok.mp (mapCause_eq_ok.mp h)⟩

/-- What has passed the checks is a node of the parts, and fits. -/
theorem checked_eq_ok {kind : Kind c} {arguments : List Literal} {children : List (Constraint c)}
    {tree : Constraint c} (h : checked kind arguments children = .ok tree) :
    tree = .node kind arguments children ∧ tree.fitsKind = true := by
  rw [← Outcome.toOption_eq_some, toOption_checked, Option.ite_none_right_eq_some] at h
  obtain ⟨fits, same⟩ := h
  cases same
  exact ⟨rfl, fits⟩

theorem argumentsOfJson_eq_ok {json : Json} {arguments : List Literal}
    (h : argumentsOfJson json = .ok arguments) :
    ReadsList Literal.ofJson (json.field? 1 "arguments") arguments := by
  unfold argumentsOfJson at h
  split at h
  · rename_i none
    cases h
    exact .inl ⟨none, rfl⟩
  · rename_i value field
    have read := mapCause_eq_ok.mp h
    unfold Literal.arrayOfJson at read
    split at read
    · exact .inr ⟨_, field, Literal.listOfJson_eq _ ▸ read⟩
    · cases read

/-- **The arguments and children of a stored constraint are read of its parts.** -/
theorem ofJson_eq_ok {json : Json} {tree : Constraint c} (h : ofJson json = .ok tree) :
    tree.fitsKind = true ∧ ReadsList Literal.ofJson (json.field? 1 "arguments") tree.arguments ∧
      ReadsList ofJson (json.field? 2 "children") tree.children := by
  rw [ofJson] at h
  split at h
  · rename_i none
    obtain ⟨k, a, cs, ha, hcs, made⟩ := ofParts_eq_ok h
    obtain ⟨rfl, fits⟩ := checked_eq_ok made
    cases hcs
    exact ⟨fits, argumentsOfJson_eq_ok ha, .inl ⟨none, rfl⟩⟩
  · rename_i value field
    obtain ⟨k, a, cs, ha, hcs, made⟩ := ofParts_eq_ok h
    obtain ⟨rfl, fits⟩ := checked_eq_ok made
    unfold arrayOfJson at hcs
    split at hcs
    · exact ⟨fits, argumentsOfJson_eq_ok ha, .inr ⟨_, field, listOfJson_eq _ ▸ hcs⟩⟩
    · cases hcs

/-- **A stored constraint fits at every node.** -/
theorem fits_of_ofJson (json : Json) {tree : Constraint c} (h : ofJson json = .ok tree) :
    tree.fits = true := by
  induction tree using induct generalizing json with
  | node kind arguments children ih =>
    obtain ⟨own, -, below⟩ := ofJson_eq_ok h
    have each : ∀ child ∈ children, child.fits = true := by
      intro child hchild
      obtain ⟨-, -, item, -, read⟩ := below.exists_item child hchild
      exact ih child hchild item read
    rw [fits_node, own, List.all_eq_true.mpr each]
    rfl

end Constraint

theorem AnyConstraint.fits_of_ofJson {json : Json} {any : AnyConstraint}
    (h : AnyConstraint.ofJson json = .ok any) : any.fits = true := by
  obtain ⟨category, -, h⟩ := Outcome.bind_eq_ok.mp h
  obtain ⟨value, -, h⟩ := Outcome.bind_eq_ok.mp h
  obtain ⟨tree, htree, h⟩ := Outcome.bind_eq_ok.mp h
  obtain ⟨-, rfl⟩ := keepIf_eq_ok.mp h
  exact Constraint.fits_of_ofJson value htree

namespace Query

/-- A tree that is there is read of the stored one, which is read as a tree if it is not
`null`. -/
theorem treeOfJson_eq_ok {c : Category} {stored : Option Json} {tree : Option (Constraint c)}
    (h : treeOfJson stored = .ok tree) :
    (∀ own ∈ tree, ∃ value, stored = some value ∧ Constraint.ofJson value = .ok own) ∧
      ∀ value, stored = some value →
        value = .null ∨ ∃ own : Constraint c, Constraint.ofJson value = .ok own := by
  unfold treeOfJson at h
  split at h
  · cases h
    simp
  · cases h
    simp
  · obtain ⟨own, read, rfl⟩ := Outcome.map_eq_ok.mp h
    simp [read]

theorem headOfJson_eq_ok {json : Json} {head : HeadConstraint} (h : headOfJson json = .ok head) :
    ∃ value, json.field? 0 "head" = some value ∧ Constraint.ofJson value = .ok head := by
  obtain ⟨value, field, h⟩ := Outcome.bind_eq_ok.mp h
  exact ⟨value, wanted_eq_ok.mp field, h⟩

theorem create_eq {head : HeadConstraint} {filterBy : Option FilterConstraint}
    {orderBy : Option OrderConstraint} {require : Option RequireConstraint} {q : Query}
    (h : create head filterBy orderBy require = .ok q) :
    q = ⟨head, filterBy, orderBy, require⟩ ∧ q.rooted = true := by
  rw [← Outcome.toOption_eq_some] at h
  rw [toOption_create ⟨head, filterBy, orderBy, require⟩, Option.ite_none_right_eq_some] at h
  obtain ⟨rooted, same⟩ := h
  cases same
  exact ⟨rfl, rooted⟩

/-- **The parts of a stored query are read of its members.** -/
theorem ofJson_eq_ok {json : Json} {q : Query} (h : ofJson json = .ok q) :
    q.rooted = true ∧ headOfJson json = .ok q.head ∧
      treeOfJson (json.field? 1 "filter_by") = .ok q.filterBy ∧
      treeOfJson (json.field? 2 "order_by") = .ok q.orderBy ∧
      treeOfJson (json.field? 3 "require") = .ok q.require := by
  unfold ofJson at h
  dsimp only at h
  split at h
  · obtain ⟨head, hhead, h⟩ := Outcome.bind_eq_ok.mp h
    obtain ⟨filterBy, hfilter, h⟩ := Outcome.bind_eq_ok.mp h
    obtain ⟨orderBy, horder, h⟩ := Outcome.bind_eq_ok.mp h
    obtain ⟨require, hrequire, h⟩ := Outcome.bind_eq_ok.mp h
    obtain ⟨-, -, h⟩ := Outcome.bind_eq_ok.mp h
    obtain ⟨rfl, rooted⟩ := create_eq (accepted_eq_ok.mp (mapCause_eq_ok.mp h))
    exact ⟨rooted, hhead, hfilter, horder, hrequire⟩
  · obtain ⟨filterBy, hfilter, h⟩ := Outcome.bind_eq_ok.mp h
    have h : (do
        let orderBy ← treeOfJson (json.field? 2 "order_by")
        let require ← treeOfJson (json.field? 3 "require")
        let head ← headOfJson json
        mapCause .construction (accepted (create head filterBy orderBy require))) = .ok q := by
      split at h
      · obtain ⟨-, -, h⟩ := Outcome.bind_eq_ok.mp h
        exact h
      · exact h
    obtain ⟨orderBy, horder, h⟩ := Outcome.bind_eq_ok.mp h
    obtain ⟨require, hrequire, h⟩ := Outcome.bind_eq_ok.mp h
    obtain ⟨head, hhead, h⟩ := Outcome.bind_eq_ok.mp h
    obtain ⟨rfl, rooted⟩ := create_eq (accepted_eq_ok.mp (mapCause_eq_ok.mp h))
    exact ⟨rooted, hhead, hfilter, horder, hrequire⟩

/-- The members of a stored query with the names of its parts, and their places in a list. -/
def members (json : Json) : List (Option Json) :=
  [json.field? 0 "head", json.field? 1 "filter_by", json.field? 2 "order_by",
    json.field? 3 "require"]

/-- Each part of a stored query is read of a member. -/
theorem part_of_ofJson {json : Json} {q : Query} (h : ofJson json = .ok q) :
    ∀ any ∈ q.parts, ∃ value, some value ∈ members json ∧
      Constraint.ofJson value = .ok any.constraint := by
  obtain ⟨-, head, filterBy, orderBy, require⟩ := ofJson_eq_ok h
  have tree {c : Category} {stored : Option Json} {tree : Option (Constraint c)}
      (read : treeOfJson stored = .ok tree) (member : stored ∈ members json) :
      ∀ any ∈ (tree.map Constraint.toAny).toList, ∃ value, some value ∈ members json ∧
        Constraint.ofJson value = .ok any.constraint := by
    intro any ha
    obtain ⟨own, howned, rfl⟩ := Option.map_eq_some_iff.mp (Option.mem_toList.mp ha)
    obtain ⟨value, rfl, made⟩ := (treeOfJson_eq_ok read).1 own howned
    exact ⟨value, member, made⟩
  intro any ha
  simp only [parts, List.mem_cons, List.mem_append] at ha
  rcases ha with rfl | (ha | ha) | ha
  · obtain ⟨value, field, read⟩ := headOfJson_eq_ok head
    exact ⟨value, by simp [members, field], read⟩
  · exact tree filterBy (by simp [members]) any ha
  · exact tree orderBy (by simp [members]) any ha
  · exact tree require (by simp [members]) any ha

/-- Each member of a stored query is read as a constraint. -/
theorem member_of_ofJson {json : Json} {q : Query} (h : ofJson json = .ok q) {value : Json}
    (member : some value ∈ members json) :
    value = .null ∨ ∃ c, ∃ tree : Constraint c, Constraint.ofJson value = .ok tree := by
  obtain ⟨-, head, filterBy, orderBy, require⟩ := ofJson_eq_ok h
  have tree {c : Category} {stored : Option Json} {tree : Option (Constraint c)}
      (read : treeOfJson stored = .ok tree) (field : some value = stored) :
      value = .null ∨ ∃ c, ∃ tree : Constraint c, Constraint.ofJson value = .ok tree :=
    ((treeOfJson_eq_ok read).2 value field.symm).imp_right fun own => ⟨c, own⟩
  simp only [members, List.mem_cons, List.not_mem_nil, or_false] at member
  rcases member with field | field | field | field
  · obtain ⟨value', field', read⟩ := headOfJson_eq_ok head
    cases field.trans field'
    exact .inr ⟨_, _, read⟩
  · exact tree filterBy field
  · exact tree orderBy field
  · exact tree require field

/-- **A stored query fits at every node**, and its parts may be parts of one. -/
theorem fits_of_ofJson {json : Json} {q : Query} (h : ofJson json = .ok q) :
    q.fits = true ∧ q.rooted = true := by
  refine ⟨List.all_eq_true.mpr fun any ha => ?_, (ofJson_eq_ok h).1⟩
  obtain ⟨value, -, read⟩ := part_of_ofJson h any ha
  exact Constraint.fits_of_ofJson value read

end Query
end CatalogQuery
