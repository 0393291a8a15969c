import CatalogQuery.Proofs.Parse.Origins
import CatalogQuery.Proofs.Query.Stored

namespace CatalogQuery

/-! ### Stored literals -/

namespace Literal

variable {json value : Json} {kind : LiteralKind} {l : Literal}

/-- A decoder makes literals of its kind. -/
theorem kind_of_scalarOfJson (h : scalarOfJson kind value = .ok l) : l.kind = kind := by
  cases kind with
  | intRange => exact RangeSort.lawful_ints.kind_of_scalarOfJson h
  | decimalRange => exact RangeSort.lawful_decimals.kind_of_scalarOfJson h
  | dateTimeRange => exact RangeSort.lawful_dateTimes.kind_of_scalarOfJson h
  | enum =>
    obtain ⟨word, -, made⟩ := Outcome.bind_eq_ok.mp h
    exact kind_of_enum? (accepted_eq_ok.mp made)
  | locale =>
    obtain ⟨tag, -, made⟩ := Outcome.bind_eq_ok.mp h
    exact kind_of_locale? (accepted_eq_ok.mp made)
  | multiple => cases h
  | _ =>
    obtain ⟨own, -, rfl⟩ := Outcome.map_eq_ok.mp h
    rfl

/-- Several literals are decoded from an array, any other kind by its own decoder. -/
theorem valueOfJson_eq_ok (h : valueOfJson kind value = .ok l) :
    kind ≠ .multiple ∧ scalarOfJson kind value = .ok l ∨
      kind = .multiple ∧ ∃ items first second rest, value = .array items ∧
        l = .multiple first second rest ∧ items.mapM ofJson = .ok (first :: second :: rest) := by
  unfold valueOfJson at h
  split at h
  · rename_i items
    obtain ⟨literals, read, h⟩ := Outcome.bind_eq_ok.mp h
    rw [listOfJson_eq] at read
    obtain ⟨first, second, rest, rfl, rfl⟩ := multiple?_eq_ok.mp (accepted_eq_ok.mp h)
    exact .inr ⟨rfl, items, first, second, rest, rfl, rfl, read⟩
  · by_cases several : kind = .multiple
    · rw [several] at h
      cases h
    · exact .inl ⟨several, h⟩

/-- A literal is decoded from the value of its stored form, by the kind that it names. -/
theorem ofJson_eq_ok (h : ofJson json = .ok l) : ∃ kind value, kindOfJson? json = some kind ∧
    json.field? 1 "value" = some value ∧ valueOfJson kind value = .ok l := by
  rw [ofJson] at h
  obtain ⟨kind, named, h⟩ := Outcome.bind_eq_ok.mp h
  split at h
  · cases h
  · rename_i value field
    obtain ⟨literal, read, h⟩ := Outcome.bind_eq_ok.mp h
    obtain ⟨-, rfl⟩ := keepIf_eq_ok.mp h
    exact ⟨kind, value, wanted_eq_ok.mp named, field, read⟩

/-- Of the kinds but `multiple`, a literal is decoded by the decoder of its kind. -/
theorem scalarOfJson_of_ofJson (h : ofJson json = .ok l) (single : l.kind ≠ .multiple) :
    ∃ value, json.field? 1 "value" = some value ∧ scalarOfJson l.kind value = .ok l := by
  obtain ⟨kind, value, -, field, read⟩ := ofJson_eq_ok h
  rcases valueOfJson_eq_ok read with ⟨-, read⟩ | ⟨-, items, first, second, rest, -, rfl, -⟩
  · rw [kind_of_scalarOfJson read]
    exact ⟨value, field, read⟩
  · exact absurd rfl single

end Literal

/-! ### Stored literals within stored forms -/

/-- What a stored form is one of. -/
inductive StoredForm
  | literal
  /-- A constraint of a known category. -/
  | constraint
  /-- A constraint with its category. -/
  | anyConstraint
  | query

/-- A stored form is decoded as a value. -/
inductive Decodes : StoredForm → Json → Parsed → Prop
  | literal {json : Json} {l : Literal} : Literal.ofJson json = .ok l →
    Decodes .literal json (.literal l)
  | constraint {json : Json} {c : Category} {tree : Constraint c} :
    Constraint.ofJson json = .ok tree → Decodes .constraint json (.constraint tree.toAny)
  | anyConstraint {json : Json} {any : AnyConstraint} : AnyConstraint.ofJson json = .ok any →
    Decodes .anyConstraint json (.constraint any)
  | query {json : Json} {q : Query} : Query.ofJson json = .ok q → Decodes .query json (.query q)

/-- A stored form is one of a literal or has it among its values and arguments, at any
depth. -/
inductive Holds (part : Json) : StoredForm → Json → Prop
  | self : Holds part .literal part
  | value {json item : Json} {items : List Json} :
    Literal.kindOfJson? json = some .multiple → json.field? 1 "value" = some (.array items) →
    item ∈ items → Holds part .literal item → Holds part .literal json
  | argument {json item : Json} {items : List Json} :
    json.field? 1 "arguments" = some (.array items) → item ∈ items → Holds part .literal item →
    Holds part .constraint json
  | child {json item : Json} {items : List Json} :
    json.field? 2 "children" = some (.array items) → item ∈ items → Holds part .constraint item →
    Holds part .constraint json
  | withCategory {json value : Json} : json.field? 1 "constraint" = some value →
    Holds part .constraint value → Holds part .anyConstraint json
  | member {json value : Json} : some value ∈ Query.members json →
    Holds part .constraint value → Holds part .query json

theorem AnyConstraint.ofJson_eq_ok {json : Json} {any : AnyConstraint}
    (h : AnyConstraint.ofJson json = .ok any) :
    ∃ value, json.field? 1 "constraint" = some value ∧
      Constraint.ofJson value = .ok any.constraint := by
  obtain ⟨category, -, h⟩ := Outcome.bind_eq_ok.mp h
  obtain ⟨value, field, h⟩ := Outcome.bind_eq_ok.mp h
  obtain ⟨tree, read, h⟩ := Outcome.bind_eq_ok.mp h
  obtain ⟨-, rfl⟩ := keepIf_eq_ok.mp h
  exact ⟨value, wanted_eq_ok.mp field, read⟩

namespace Decodes

/-! ### From the values to what is stored -/

theorem held_of_literal {json : Json} {l : Literal} (h : Literal.ofJson json = .ok l) :
    ∀ scalar ∈ l.scalars, ∃ part, Holds part .literal json ∧ Literal.ofJson part = .ok scalar := by
  induction l using Literal.induct generalizing json with
  | single l single =>
    rw [Literal.scalars_single single]
    simpa using ⟨json, .self, h⟩
  | multiple first second rest hfirst hsecond hrest =>
    obtain ⟨kind, value, named, field, read⟩ := Literal.ofJson_eq_ok h
    rcases Literal.valueOfJson_eq_ok read with ⟨single, read⟩ | ⟨rfl, items, _, _, _, rfl, ⟨⟩, each⟩
    · exact absurd (Literal.kind_of_scalarOfJson read).symm single
    · have inside : ∀ l ∈ first :: second :: rest, ∀ json, Literal.ofJson json = .ok l →
          ∀ scalar ∈ l.scalars, ∃ part, Holds part .literal json ∧
            Literal.ofJson part = .ok scalar :=
        List.forall_mem_cons.mpr ⟨fun _ => hfirst,
          List.forall_mem_cons.mpr ⟨fun _ => hsecond, fun l hl _ => hrest l hl⟩⟩
      intro scalar hscalar
      rw [Literal.scalars_multiple] at hscalar
      obtain ⟨l, hl, among⟩ := List.mem_flatMap.mp hscalar
      obtain ⟨item, hitem, made⟩ := (Outcome.mem_of_mapM each).2 l hl
      obtain ⟨part, held, read⟩ := inside l hl item made scalar among
      exact ⟨part, .value named field hitem held, read⟩

theorem held_of_constraint {c : Category} {json : Json} {tree : Constraint c}
    (h : Constraint.ofJson json = .ok tree) : ∀ l ∈ tree.literals, ∀ scalar ∈ l.scalars,
      ∃ part, Holds part .constraint json ∧ Literal.ofJson part = .ok scalar := by
  induction tree using Constraint.induct generalizing json with
  | node kind arguments children ih =>
    obtain ⟨-, own, below⟩ := Constraint.ofJson_eq_ok h
    intro l hl scalar hscalar
    rw [Constraint.literals_node, List.mem_append] at hl
    rcases hl with hl | hl
    · obtain ⟨items, field, item, hitem, read⟩ := own.exists_item l hl
      obtain ⟨part, held, read⟩ := held_of_literal read scalar hscalar
      exact ⟨part, .argument field hitem held, read⟩
    · obtain ⟨child, hchild, hl⟩ := List.mem_flatMap.mp hl
      obtain ⟨items, field, item, hitem, read⟩ := below.exists_item child hchild
      obtain ⟨part, held, read⟩ := ih child hchild read l hl scalar hscalar
      exact ⟨part, .child field hitem held, read⟩

/-- **Each value that is decoded comes from a stored literal.** -/
theorem held_of_scalar {form : StoredForm} {json : Json} {v : Parsed} (h : Decodes form json v) :
    ∀ scalar ∈ v.scalars, ∃ part, Holds part form json ∧ Literal.ofJson part = .ok scalar := by
  intro scalar hscalar
  obtain ⟨l, hl, among⟩ := List.mem_flatMap.mp hscalar
  cases h with
  | literal read =>
    cases List.mem_singleton.mp hl
    exact held_of_literal read scalar among
  | constraint read => exact held_of_constraint read l hl scalar among
  | anyConstraint read =>
    obtain ⟨value, field, read⟩ := AnyConstraint.ofJson_eq_ok read
    obtain ⟨part, held, read⟩ := held_of_constraint read l hl scalar among
    exact ⟨part, .withCategory field held, read⟩
  | query read =>
    obtain ⟨any, ha, hl⟩ := List.mem_flatMap.mp hl
    obtain ⟨value, member, read⟩ := Query.part_of_ofJson read any ha
    obtain ⟨part, held, read⟩ := held_of_constraint read l hl scalar among
    exact ⟨part, .member member held, read⟩

/-! ### From what is stored to the values -/

/-- A constraint is not stored as `null`, so that holds nothing. -/
theorem not_holds_null {part : Json} : ¬Holds part .constraint .null := by
  intro h
  cases h with
  | argument field => cases field
  | child field => cases field

/-- **Nothing is decoded of a stored form if one of its stored literals is not decoded.** The
induction is on the way from the stored form down to the literal. -/
theorem literal_of_held {form : StoredForm} {json part : Json} (held : Holds part form json)
    {v : Parsed} (h : Decodes form json v) : ∃ l, Literal.ofJson part = .ok l := by
  induction held generalizing v with
  | self =>
    cases h with
    | literal read => exact ⟨_, read⟩
  | value named field hitem _ ih =>
    cases h with
    | literal read =>
      obtain ⟨kind, value, named', field', read⟩ := Literal.ofJson_eq_ok read
      cases named.symm.trans named'
      cases field.symm.trans field'
      rcases Literal.valueOfJson_eq_ok read with ⟨single, -⟩ | ⟨-, items, _, _, _, ⟨⟩, -, read⟩
      · exact absurd rfl single
      · obtain ⟨l, -, read⟩ := (Outcome.mem_of_mapM read).1 _ hitem
        exact ih (.literal read)
  | argument field hitem _ ih =>
    cases h with
    | constraint read =>
      obtain ⟨l, -, read⟩ := (Constraint.ofJson_eq_ok read).2.1.exists_value field _ hitem
      exact ih (.literal read)
  | child field hitem _ ih =>
    cases h with
    | constraint read =>
      obtain ⟨tree, -, read⟩ := (Constraint.ofJson_eq_ok read).2.2.exists_value field _ hitem
      exact ih (.constraint read)
  | withCategory field _ ih =>
    cases h with
    | anyConstraint read =>
      obtain ⟨value, field', read⟩ := AnyConstraint.ofJson_eq_ok read
      cases field.symm.trans field'
      exact ih (.constraint read)
  | member member below ih =>
    cases h with
    | query read =>
      rcases Query.member_of_ofJson read member with rfl | ⟨c, tree, read⟩
      · exact absurd below not_holds_null
      · exact ih (.constraint read)

end Decodes
end CatalogQuery
