import CatalogQuery.Proofs.Grammar.Braces
import CatalogQuery.Proofs.Grammar.Lookahead
import CatalogQuery.Proofs.Parse.Errors

/-!
# Unreadable places

Where a text cannot be read any further, the character that stands there is reported. The text up
to and with this character is all that is to blame, so every other text that starts the same is
refused with the same error. A token that converts to no literal is different: it is reported
where it starts, but has been looked at to its end; and directly inside of braces its character is
not shown.
-/

namespace CatalogQuery

open Grammar

/-- A text that is read up to some characters is refused at the place after them. -/
theorem parse_of_halt {before rest : List Char} {hidden : Bool}
    (halts : rootCourse (before ++ rest) = .error ⟨rest, hidden⟩) :
    parse (before ++ rest) =
      .error (.unreadable (.after before) (if hidden then none else rest.head?)) := by
  rw [parse, readRoot_eq_error.mpr halts]
  dsimp only [Failure.toError]
  rw [Text.Position.ofRemaining_append]

/-- **A text that cannot be read is refused at the first place that is to blame.** The place is
that of an offset of the text. At the end no character is found. Elsewhere the character at the
offset is, unless a token that converts to no literal starts there directly inside of braces. If
a character was found, all texts that are the same up to and with it are refused with the same
error; or a token that converts to no literal starts there, and all texts are that are the same
up to the end of the token. -/
theorem unreadable_place_reported {text : List Char} {failure : Failure}
    (read : readRoot text = .error failure) : ∃ before rest found, text = before ++ rest ∧
      parse text = .error (.unreadable (.after before) found) ∧
      (rest = [] → found = none) ∧
      (∀ c ∈ rest.head?, found = some c ∨ InBraces before ∧
        ∃ token after, rest = token ++ after ∧ Refused token after) ∧
      (found ≠ none →
        (∀ c tail, rest = c :: tail → ∀ tail',
          parse (before ++ c :: tail') = .error (.unreadable (.after before) found)) ∨
        ∃ token after, rest = token ++ after ∧ Refused token after ∧
          ∀ after', Refused token after' → parse (before ++ (token ++ after')) =
            .error (.unreadable (.after before) found)) := by
  have halts := readRoot_eq_error.mp read
  cases (oneAhead_root text).halts failure halts with
  | ending =>
    rw [← List.append_nil text] at halts
    have reported := parse_of_halt halts
    rw [List.append_nil] at reported
    exact ⟨text, [], none, (List.append_nil text).symm, reported, fun _ => rfl, by simp, by simp⟩
  | @character used tail c split others =>
    subst split
    refine ⟨used, c :: tail, some c, rfl, parse_of_halt halts, by simp, by simp, fun _ => .inl ?_⟩
    rintro c tail ⟨⟩ tail'
    exact parse_of_halt (others tail')
  | @token used token after hidden split refused others =>
    subst split
    obtain ⟨c, tail, rfl, -⟩ := refused.starts
    refine ⟨used, _, if hidden then none else some c, rfl, parse_of_halt halts, by simp, ?_, ?_⟩
    · rintro _ ⟨⟩
      cases hidden with
      | false => exact .inl rfl
      | true =>
        obtain ⟨before, same, inside⟩ := inBraces_of_readRoot read
        rw [List.append_cancel_right same]
        exact .inr ⟨inside, _, after, rfl, refused⟩
    · intro _
      refine .inr ⟨_, after, rfl, refused, ?_⟩
      intro after' refused'
      exact parse_of_halt (others after' refused')

/-- A call whose argument is a word without an argument list. -/
def bareWord : List Char := "and(bad)".toList

theorem bareWord_reported :
    readRoot bareWord = .error ⟨[')'], false⟩ ∧
      ∀ tail, parse (bareWord ++ tail) = .error (.unreadable ⟨1, 8⟩ (some ')')) := by
  have read : readRoot bareWord = .error ⟨[')'], false⟩ := rfl
  refine ⟨read, ?_⟩
  obtain ⟨before, rest, found, split, reported, -, -, others⟩ := unreadable_place_reported read
  have error : parse bareWord = .error (.unreadable ⟨1, 8⟩ (some ')')) := rfl
  obtain ⟨place, rfl⟩ : ⟨1, 8⟩ = Text.Position.after before ∧ some ')' = found := by
    simpa using error.symm.trans reported
  obtain rfl : "and(bad".toList = before := Text.Position.eq_of_after [')'] split place
  obtain rfl : [')'] = rest := (List.append_right_inj "and(bad".toList).mp split
  intro tail
  rcases others (by simp) with same | ⟨token, after, start, refused, -⟩
  · exact same _ _ rfl tail
  · -- A bracket starts no token that is refused.
    obtain ⟨c, tail, rfl, mark⟩ := refused.starts
    obtain ⟨rfl, -⟩ := List.cons.inj start
    exact absurd (by decide) mark

/-- An error that shows the first character that is to blame: the one at its place, and all texts
that are the same up to and with it are refused with the same error. -/
def ReportsFirst (text : List Char) : Prop :=
  ∀ failure, readRoot text = .error failure → ∃ before rest, text = before ++ rest ∧
    parse text = .error (.unreadable (.after before) rest.head?) ∧
    ∀ c tail, rest = c :: tail → ∀ tail',
      parse (before ++ c :: tail') = .error (.unreadable (.after before) rest.head?)

/-- A number with two signs is reported at the first of them, though a number can start so. A
word in braces is reported as if the text ended there. -/
theorem not_reportsFirst :
    ¬ReportsFirst "+-5".toList ∧ ¬ReportsFirst ('\x7b' :: "1,bad".toList ++ ['\x7d']) := by
  constructor
  · intro h
    obtain ⟨before, rest, split, reported, others⟩ := h ⟨"+-5".toList, false⟩ rfl
    have error : parse "+-5".toList = .error (.unreadable ⟨1, 1⟩ (some '+')) := rfl
    obtain ⟨place, -⟩ : ⟨1, 1⟩ = Text.Position.after before ∧ some '+' = rest.head? := by
      simpa using error.symm.trans reported
    obtain rfl : [] = before := Text.Position.eq_of_after "+-5".toList split place
    subst split
    have number : parse "+5".toList = .ok (.literal (.int 5)) := rfl
    exact nomatch number.symm.trans (others _ _ rfl ['5'])
  · intro h
    obtain ⟨before, rest, split, reported, -⟩ := h ⟨"bad".toList ++ ['\x7d'], true⟩ rfl
    have error : parse ('\x7b' :: "1,bad".toList ++ ['\x7d']) =
      .error (.unreadable ⟨1, 4⟩ none) := rfl
    obtain ⟨place, ending⟩ : ⟨1, 4⟩ = Text.Position.after before ∧ none = rest.head? := by
      simpa using error.symm.trans reported
    obtain rfl : '\x7b' :: "1,".toList = before :=
      Text.Position.eq_of_after ("bad".toList ++ ['\x7d']) split place
    obtain rfl : "bad".toList ++ ['\x7d'] = rest :=
      (List.append_right_inj ('\x7b' :: "1,".toList)).mp split
    cases ending

end CatalogQuery
