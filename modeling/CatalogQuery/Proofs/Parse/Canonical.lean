import CatalogQuery.Proofs.Parse.Soundness

/-!
# Canonical text reads back

A literal reads back from its text exactly if each zoned date-time in it shows a year of
four digits. All that was read from text does, so all canonical text of it reads back as
an equal value. That value is written as before, unless the sign of a zero got lost: what
a power of ten leaves nothing of is written with its sign, but a zero is read without one.
-/

namespace CatalogQuery

/-- **A literal reads back from its text exactly if it is readable**, as an equal literal
of its kind. The reader of its kind reads the same, unless it is made of other literals. -/
theorem literal_text_reads_back (l : Literal) :
    (l.readable = true → ∃ l', parseLiteral l.text = .ok l' ∧ l'.kind = l.kind ∧
      l.equal l' = true ∧ (l.kind ≠ .multiple → Literal.parse l.kind l.text = .ok l')) ∧
    (l.readable = false → ∃ error, parseLiteral l.text = .error error) := by
  have whole := toOption_parseLiteral_text l
  constructor
  · intro readable
    rw [if_pos readable, Outcome.toOption_eq_some] at whole
    refine ⟨l.normal, whole, l.kind_normal, l.equal_normal, ?_⟩
    intro single
    rw [← Outcome.toOption_eq_some, Literal.parse_text single, if_pos readable]
  · intro unreadable
    rw [unreadable, if_neg Bool.false_ne_true, Outcome.toOption_eq_none] at whole
    exact whole

/-- The start of a year by a clock that is thirty seconds behind universal time. -/
def newYear? (year : Int) : Option Literal := do
  let date ← Date.ofFields? year 1 1
  let time ← Time.ofSeconds? 0 0
  let offset ← Offset.ofSeconds? (-30)
  let instant ← ZonedDateTime.ofLocal? ⟨date, time⟩ offset
  some (.zonedDateTime instant)

theorem newYear_reads_back :
    (∃ l l', newYear? 9999 = some l ∧ parseLiteral l.text = .ok l' ∧ l.equal l' = true ∧
      Literal.parse .zonedDateTime l.text = .ok l') ∧
    ∃ l error, newYear? 10000 = some l ∧ parseLiteral l.text = .error error := by
  constructor
  · have last : (newYear? 9999).map Literal.readable = some true := by decide
    obtain ⟨l, named, readable⟩ := Option.map_eq_some_iff.mp last
    obtain ⟨l', parsed, -, equal, read⟩ := (literal_text_reads_back l).1 readable
    have kind : (newYear? 9999).map Literal.kind = some .zonedDateTime := by decide
    rw [named, Option.map_some, Option.some.injEq] at kind
    rw [kind] at read
    exact ⟨l, l', named, parsed, equal, read (by decide)⟩
  · have next : (newYear? 10000).map Literal.readable = some false := by decide
    obtain ⟨l, named, unreadable⟩ := Option.map_eq_some_iff.mp next
    obtain ⟨error, refused⟩ := (literal_text_reads_back l).2 unreadable
    exact ⟨l, error, named, refused⟩

/-- **Whatever was parsed reads back from its canonical text**, as an equal value of the
same production. Its text is the same again exactly if it has no negative zero. -/
theorem canonical_text_reads_back {text : List Char} {v : Parsed} (h : parse text = .ok v) :
    ∃ v', parse v.text = .ok v' ∧ v'.production = v.production ∧ v.equal v' = true ∧
      (v'.text = v.text ↔ v.negativeZeros = 0) := by
  obtain ⟨readable, fits⟩ := Parsed.sound_of_parse h
  have whole := v.toOption_parse_text
  rw [readable, fits, Bool.and_self, if_pos rfl, Outcome.toOption_eq_some] at whole
  exact ⟨v.normal, whole, v.production_normal, v.equal_normal, v.text_normal_iff⟩

theorem vanished_power_loses_sign :
    ∃ v v', parse "[-0.1e-28,]".toList = .ok v ∧ parse v.text = .ok v' ∧ v'.text ≠ v.text := by
  have read : (parse "[-0.1e-28,]".toList).toOption.map Parsed.negativeZeros = some 1 := by
    decide
  obtain ⟨v, parsed, zeros⟩ := Outcome.toOption_map_eq_some.mp read
  obtain ⟨v', again, -, -, same⟩ := canonical_text_reads_back parsed
  refine ⟨v, v', parsed, again, ?_⟩
  intro h
  rw [same.mp h] at zeros
  exact absurd zeros (by decide)

end CatalogQuery
