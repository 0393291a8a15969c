import CatalogQuery.Grammar.Raw
import CatalogQuery.Proofs.Grammar.Spacing
import CatalogQuery.Proofs.Outcome

namespace CatalogQuery.Grammar

open Text (Leaves isBlank skipBlanks)

/-! ### Items -/

/-- What was read, and what is left of the text without its leading blanks. -/
def means {α β : Type} (meaning : α → Option β) (outcome : Except Failure (α × List Char)) :
    Option (β × List Char) :=
  outcome.toOption.bind fun read => (meaning read.1).map (·, skipBlanks read.2)

/-- A text and what it says, or nothing if it cannot be read. -/
structure Spelling (β : Type) where
  text : List Char
  value : Option β

section
variable {α β : Type}

/-- Wherever an item may end, the reader takes the text for what it says. -/
def Spelling.ReadBy (s : Spelling β) (item : Reader α) (meaning : α → Option β) : Prop :=
  ∀ rest, Stops rest →
    means meaning (item (s.text ++ rest)) = s.value.map (·, skipBlanks rest)

theorem mapM_cons {γ : Type} (f : γ → Option β) (i : γ) (items : List γ) :
    (i :: items).mapM f = (f i).bind fun v => (items.mapM f).bind fun vs => some (v :: vs) := by
  rw [List.mapM_cons]
  cases f i with
  | none => rfl
  | some v => cases items.mapM f <;> rfl

theorem mapM_some_map {γ δ : Type} (f : γ → δ) (items : List γ) :
    items.mapM (fun i => some (f i)) = some (items.map f) :=
  List.mapM_pure

/-- Several values, or nothing if one is missing. -/
def valuesOf (items : List (Spelling β)) : Option (List β) := items.mapM Spelling.value

theorem valuesOf_cons (s : Spelling β) (items : List (Spelling β)) :
    valuesOf (s :: items) =
      s.value.bind fun v => (valuesOf items).bind fun vs => some (v :: vs) :=
  mapM_cons Spelling.value s items

theorem valuesOf_append (first rest : List (Spelling β)) :
    valuesOf (first ++ rest) =
      (valuesOf first).bind fun vs => (valuesOf rest).bind fun vs' => some (vs ++ vs') := by
  induction first with
  | nil =>
    have none : valuesOf ([] : List (Spelling β)) = some [] := rfl
    rw [none, List.nil_append, Option.bind_some]
    cases valuesOf rest <;> rfl
  | cons s first ih =>
    rw [List.cons_append, valuesOf_cons, valuesOf_cons, ih]
    cases s.value with
    | none => rfl
    | some v =>
      cases valuesOf first with
      | none => rfl
      | some vs => cases valuesOf rest <;> rfl

theorem valuesOf_map {γ : Type} {spell : γ → Spelling β} {test : γ → Bool} {say : γ → β}
    {items : List γ} (h : ∀ i ∈ items, (spell i).value = if test i then some (say i) else none) :
    valuesOf (items.map spell) = if items.all test then some (items.map say) else none := by
  induction items with
  | nil => rfl
  | cons i items ih =>
    rw [List.map_cons, valuesOf_cons, h i List.mem_cons_self,
      ih fun i hi => h i (List.mem_cons_of_mem _ hi)]
    by_cases hi : test i = true
    · by_cases hall : items.all test = true
      · simp only [List.all_cons, hi, hall, Bool.and_self, if_true, Option.bind_some, List.map_cons]
      · simp only [List.all_cons, hi, hall, Bool.true_and, if_true, Bool.false_eq_true, if_false,
          Option.bind_some, Option.bind_none]
    · simp only [List.all_cons, hi, Bool.false_and, Bool.false_eq_true, if_false, Option.bind_none]

variable {meaning : α → Option β} {item : Reader α}

/-- What was read if it means what is known. -/
theorem means_cases {x : Except Failure (α × List Char)} {value : Option β} {tail : List Char}
    (h : means meaning x = value.map (·, tail)) :
    (value = none ∧ ∃ failure, x = .error failure) ∨
      ∃ a rest, x = .ok (a, rest) ∧ meaning a = value ∧ ∀ v ∈ value, skipBlanks rest = tail := by
  cases x with
  | error failure =>
    cases value with
    | none => exact .inl ⟨rfl, failure, rfl⟩
    | some v => cases h
  | ok read =>
    obtain ⟨a, rest⟩ := read
    have h : (meaning a).map (·, skipBlanks rest) = value.map (·, tail) := h
    right
    refine ⟨a, rest, rfl, ?_⟩
    cases value with
    | none => exact ⟨Option.map_eq_none_iff.mp h, by simp⟩
    | some v =>
      obtain ⟨v', meaning, same⟩ := Option.map_eq_some_iff.mp h
      obtain ⟨rfl, rfl⟩ := Prod.mk.inj same
      exact ⟨meaning, fun _ _ => rfl⟩

theorem means_eq_some {x : Except Failure (α × List Char)} {b : β} {tail : List Char}
    (h : means meaning x = some (b, tail)) :
    ∃ a after, x = .ok (a, after) ∧ meaning a = some b ∧ skipBlanks after = tail := by
  have value : means meaning x = (some b).map (·, tail) := h
  obtain ⟨none, -⟩ | ⟨a, after, read, said, blank⟩ := means_cases value
  · cases none
  · exact ⟨a, after, read, said, blank b rfl⟩

/-- Reading goes on with what was read first. What fails to say anything must not be
mended by what comes after it. -/
theorem means_bind {γ δ : Type} {goal : γ → Option δ} {x : Except Failure (α × List Char)}
    {f : α × List Char → Except Failure (γ × List Char)} {value : Option β}
    {tail after : List Char} {result : β → Option δ}
    (first : means meaning x = value.map (·, tail))
    (next : ∀ a rest v, meaning a = some v → skipBlanks rest = tail →
      means goal (f (a, rest)) = (result v).map (·, after))
    (fails : ∀ a rest, meaning a = none → means goal (f (a, rest)) = none) :
    means goal (x >>= f) = (value.bind result).map (·, after) := by
  obtain ⟨rfl, failure, rfl⟩ | ⟨a, rest, rfl, said, blank⟩ := means_cases first
  · rfl
  · cases value with
    | none => exact fails a rest said
    | some v => exact next a rest v said (blank v rfl)

theorem means_error {γ δ : Type} {goal : γ → Option δ} {x : Except Failure (α × List Char)}
    {f : α × List Char → Except Failure (γ × List Char)}
    (h : ∀ a rest, means goal (f (a, rest)) = none) : means goal (x >>= f) = none := by
  cases x with
  | error e => rfl
  | ok read => exact h read.1 read.2

theorem means_map {γ δ : Type} {goal : γ → Option δ} {x : Except Failure (α × List Char)}
    {f : α → γ} {g : β → δ} {value : Option β} {tail : List Char}
    (h : means meaning x = value.map (·, tail)) (say : ∀ a, goal (f a) = (meaning a).map g) :
    means goal (x.map fun (a, rest) => (f a, rest)) = (value.map g).map (·, tail) := by
  obtain ⟨rfl, failure, rfl⟩ | ⟨a, rest, rfl, said, blank⟩ := means_cases h
  · rfl
  · change (goal (f a)).map (·, skipBlanks rest) = _
    rw [say, said]
    cases value with
    | none => rfl
    | some v => simp only [Option.map_some, blank v rfl]

/-- The items of a list say what the first says and what the others say. -/
theorem means_cons {start after tail : List Char} {value : Option β} {values : Option (List β)}
    {next : Reader (List α)} (first : means meaning (item start) = value.map (·, tail))
    (others : ∀ rest, skipBlanks rest = tail →
      means (List.mapM meaning) (next rest) = values.map (·, after)) :
    means (List.mapM meaning) (do
      let (first, rest) ← item start
      let (others, rest) ← next rest
      return (first :: others, rest)) =
      (value.bind fun v => values.bind fun vs => some (v :: vs)).map (·, after) := by
  apply means_bind first
  · intro a rest v ha hrest
    apply means_bind (others rest hrest)
    · intro as rest vs has hrest
      simp [means, ha, has, hrest, pure, Except.pure]
    · intro as rest has
      simp [means, ha, has, pure, Except.pure]
  · intro a rest ha
    exact means_error fun as rest => by simp [means, ha, pure, Except.pure]

/-! ### Lists -/

/-- Wherever an item may end, the reader takes a text laid out of tokens for what they
say, once it has skipped the blanks before them. -/
def Reads (item : Reader α) (meaning : α → Option β) (tokens : List (List Char))
    (value : Option β) : Prop :=
  ∀ text rest, LaidOut tokens text → Stops rest →
    means meaning (item (skipBlanks (text ++ rest))) = value.map (·, skipBlanks rest)

theorem intercalate_cons {γ : Type} (separator first : List γ) (others : List (List γ)) :
    separator.intercalate (first :: others) =
      first ++ others.flatMap fun other => separator ++ other := by
  induction others generalizing first with
  | nil => simp
  | cons second others ih =>
    rw [List.intercalate_cons_cons, ih, List.flatMap_cons]
    simp only [List.append_assoc]

/-- No list of parts is longer than they are together with what separates them, if no
part is empty, and no part is. -/
theorem length_intercalate {γ : Type} (separator : List γ) {parts : List (List γ)}
    (nonempty : ∀ part ∈ parts, part ≠ []) :
    parts.length ≤ (separator.intercalate parts).length ∧
      ∀ part ∈ parts, part.length ≤ (separator.intercalate parts).length := by
  induction parts with
  | nil => simp
  | cons part parts ih =>
    obtain ⟨count, short⟩ := ih fun part hp => nonempty part (List.mem_cons_of_mem _ hp)
    have pos := List.length_pos_of_ne_nil (nonempty part List.mem_cons_self)
    by_cases last : parts = []
    · simp only [last, List.intercalate_singleton, List.length_singleton, List.mem_singleton,
        forall_eq, le_refl, and_true]
      exact pos
    · rw [List.intercalate_cons_of_ne_nil last]
      simp only [List.length_append, List.length_cons]
      refine ⟨by omega, ?_⟩
      intro part' hp
      rcases List.mem_cons.mp hp with rfl | hp
      · omega
      · have := short part' hp
        omega

section
variable {γ : Type} {tokens : γ → List (List Char)} {value : γ → Option β} {items : List γ}
  {text : List Char}

/-- Where the next comma or the closing bracket follows, an item may end. -/
theorem stops_further {closing : Char} (hc : closing = ')' ∨ closing = '\x7d')
    (h : LaidOut (items.flatMap (fun i => [','] :: tokens i) ++ [[closing]]) text)
    (rest : List Char) : Stops (text ++ rest) := by
  have mark {c : Char} {others : List (List Char)} (h : LaidOut ([c] :: others) text)
      (blank : isBlank c = false) (stop : c = ',' ∨ c = ')' ∨ c = '\x7d') :
      Stops (text ++ rest) := by
    cases h with
    | token hb h =>
      simp only [List.append_assoc, List.singleton_append]
      exact stops_append hb blank stop _
  cases items with
  | nil => exact mark h (by rcases hc with rfl | rfl <;> decide) (.inr hc)
  | cons i items => exact mark h (by decide) (.inl rfl)

/-- Further items and the closing bracket are read, if there are not too many. -/
theorem readItems_laidOut {closing : Char} (hc : closing = ')' ∨ closing = '\x7d')
    (read : ∀ i ∈ items, Reads item meaning (tokens i) (value i)) {limit : Nat}
    (hl : items.length < limit)
    (h : LaidOut (items.flatMap (fun i => [','] :: tokens i) ++ [[closing]]) text)
    (rest : List Char) {start : List Char} (hs : skipBlanks start = skipBlanks (text ++ rest)) :
    means (List.mapM meaning) (readItems item closing limit start) =
      (items.mapM value).map (·, skipBlanks rest) := by
  have blank : isBlank closing = false := by rcases hc with rfl | rfl <;> decide
  have other : closing ≠ ',' := by rcases hc with rfl | rfl <;> decide
  induction items generalizing limit text start with
  | nil =>
    cases limit with
    | zero => cases hl
    | succ limit =>
      obtain ⟨ending, he, close⟩ := h.skipBlanks_eq blank rest
      cases he with
      | ending he =>
        rw [readItems, hs, close]
        simp [means, Text.skipBlanks_append he]
  | cons i items ih =>
    cases limit with
    | zero => cases hl
    | succ limit =>
      rw [List.flatMap_cons, List.append_assoc, List.cons_append] at h
      obtain ⟨after, ha, comma⟩ := h.skipBlanks_eq (by decide) rest
      obtain ⟨piece, further, rfl, hpiece, hfurther⟩ := LaidOut.append_iff.mp ha
      -- What follows the item is the next comma or the closing bracket, so the item may end there.
      have first := read i List.mem_cons_self piece _ hpiece (stops_further hc hfurther rest)
      simp only [List.nil_append, List.append_assoc] at comma
      rw [readItems, hs, comma, mapM_cons]
      simp only [if_neg other.symm, if_true]
      apply means_cons first
      intro tail htail
      exact ih (fun i hi => read i (List.mem_cons_of_mem _ hi)) (Nat.lt_of_succ_lt_succ hl)
        hfurther htail

/-- **Arguments are read item by item**, however the tokens are laid out. -/
theorem readArguments_laidOut (read : ∀ i ∈ items, Reads item meaning (tokens i) (value i))
    (opens : ∀ i ∈ items, ∃ t ts, tokens i = t :: ts ∧ Opens t) {limit : Nat}
    (hl : items.length ≤ limit)
    (h : LaidOut ([[',']].intercalate (items.map tokens) ++ [[')']]) text) (rest : List Char) :
    means (List.mapM meaning) (readArguments item limit (text ++ rest)) =
      (items.mapM value).map (·, skipBlanks rest) := by
  cases items with
  | nil =>
    obtain ⟨ending, he, close⟩ := h.skipBlanks_eq (by decide) rest
    cases he with
    | ending he =>
      rw [readArguments, close]
      simp [means, Text.skipBlanks_append he]
  | cons i items =>
    rw [List.map_cons, intercalate_cons, List.flatMap_map, List.append_assoc] at h
    obtain ⟨piece, further, rfl, hpiece, hfurther⟩ := LaidOut.append_iff.mp h
    have first := read i List.mem_cons_self piece _ hpiece (stops_further (.inl rfl) hfurther rest)
    obtain ⟨t, ts, htokens, c, tail, rfl, blank, round⟩ := opens i List.mem_cons_self
    obtain ⟨after, -, start⟩ := (htokens ▸ hpiece).skipBlanks_eq blank (further ++ rest)
    rw [List.append_assoc, readArguments, mapM_cons]
    split
    · rename_i closed
      rw [start] at closed
      cases closed
      exact absurd rfl round
    · apply means_cons first
      intro tail htail
      exact readItems_laidOut (.inl rfl) (fun i hi => read i (List.mem_cons_of_mem _ hi)) hl
        hfurther rest htail

end

/-! ### Items of one token -/

/-- A reader that takes a text for what it says takes it so with blanks around it. -/
theorem Spelling.ReadBy.reads {s : Spelling β} (opens : Opens s.text)
    (read : s.ReadBy item meaning) : Reads item meaning [s.text] s.value := by
  intro text rest h stops
  cases h with
  | @token _ _ after _ hb h =>
    cases h with
    | ending ha =>
      have taken := read (after ++ rest) (stops.after_blanks ha)
      rw [Text.skipBlanks_append ha] at taken
      rw [List.append_assoc, Text.skipBlanks_append hb, List.append_assoc,
        skipBlanks_of_opens opens]
      exact taken

/-- Items with a comma and blanks before each. -/
def spelled (blanks : List Char) (items : List (Spelling β)) : List Char :=
  items.flatMap fun s => ',' :: blanks ++ s.text

theorem laidOut_spelled {blanks ending : List Char} (hb : Blank blanks) (he : Blank ending)
    (closing : Char) (items : List (Spelling β)) :
    LaidOut (items.flatMap (fun s => [','] :: [s.text]) ++ [[closing]])
      (spelled blanks items ++ (ending ++ [closing])) := by
  induction items with
  | nil =>
    simp only [spelled, List.flatMap_nil, List.nil_append]
    exact (LaidOut.single [closing]).after_blanks he
  | cons s items ih =>
    have text : spelled blanks (s :: items) ++ (ending ++ [closing]) =
        [','] ++ (blanks ++ (s.text ++ (spelled blanks items ++ (ending ++ [closing])))) := by
      simp [spelled]
    rw [text]
    exact .cons (.token hb ih)

theorem stops_spelled (blanks : List Char) {ending : List Char} (he : Blank ending) {closing : Char}
    (hc : closing = ')' ∨ closing = '\x7d') (items : List (Spelling β)) (rest : List Char) :
    Stops (spelled blanks items ++ (ending ++ closing :: rest)) := by
  cases items with
  | nil => exact stops_append he (by rcases hc with rfl | rfl <;> decide) (.inr hc) rest
  | cons s items =>
    simp only [spelled, List.flatMap_cons, List.cons_append, List.append_assoc]
    exact stops_append blank_nil (by decide) (.inl rfl) _

theorem readItems_spelled {blanks ending : List Char} (hb : Blank blanks) (he : Blank ending)
    {closing : Char} (hc : closing = ')' ∨ closing = '\x7d') {items : List (Spelling β)}
    (opens : ∀ s ∈ items, Opens s.text) (read : ∀ s ∈ items, s.ReadBy item meaning)
    (rest : List Char) {limit : Nat} (hl : items.length < limit) {text : List Char}
    (ht : skipBlanks text = skipBlanks (spelled blanks items ++ (ending ++ closing :: rest))) :
    means (List.mapM meaning) (readItems item closing limit text) =
      (valuesOf items).map (·, skipBlanks rest) := by
  have laidOut := laidOut_spelled hb he closing items
  refine readItems_laidOut hc (fun s hs => (read s hs).reads (opens s hs)) hl laidOut rest ?_
  rw [ht]
  simp only [List.append_assoc, List.singleton_append]

theorem intercalate_spelled (blanks : List Char) (s : Spelling β) (items : List (Spelling β)) :
    (',' :: blanks).intercalate ((s :: items).map Spelling.text) =
      s.text ++ spelled blanks items := by
  rw [List.map_cons, intercalate_cons, List.flatMap_map]
  rfl

/-- Arguments are read with commas between them, blanks after the opening bracket and
each comma, and blanks before the closing bracket. -/
theorem readArguments_spelled {opening blanks ending : List Char} (ho : Blank opening)
    (hb : Blank blanks) (he : Blank ending) {items : List (Spelling β)}
    (opens : ∀ s ∈ items, Opens s.text) (read : ∀ s ∈ items, s.ReadBy item meaning)
    (rest : List Char) {limit : Nat} (hl : items.length ≤ limit) :
    means (List.mapM meaning) (readArguments item limit
      (opening ++ ((',' :: blanks).intercalate (items.map Spelling.text) ++
        (ending ++ ')' :: rest)))) = (valuesOf items).map (·, skipBlanks rest) := by
  have laidOut : LaidOut ([[',']].intercalate (items.map fun s => [s.text]) ++ [[')']])
      (opening ++ ((',' :: blanks).intercalate (items.map Spelling.text) ++
        (ending ++ [')']))) := by
    cases items with
    | nil => exact ((LaidOut.single [')']).after_blanks he).after_blanks ho
    | cons s items =>
      rw [intercalate_spelled, List.map_cons, intercalate_cons, List.flatMap_map, List.append_assoc,
        List.append_assoc]
      exact .token ho (laidOut_spelled hb he ')' items)
  have read' := readArguments_laidOut (fun s hs => (read s hs).reads (opens s hs))
    (fun s hs => ⟨_, _, rfl, opens s hs⟩) hl laidOut rest
  simp only [List.append_assoc, List.singleton_append] at read'
  exact read'

theorem bounds_intercalate (separator : List Char) {items : List (Spelling β)}
    (opens : ∀ s ∈ items, Opens s.text) :
    items.length ≤ (separator.intercalate (items.map Spelling.text)).length ∧
      ∀ s ∈ items, s.text.length ≤ (separator.intercalate (items.map Spelling.text)).length := by
  have nonempty : ∀ part ∈ items.map Spelling.text, part ≠ [] := by
    intro part hp
    obtain ⟨s, hs, rfl⟩ := List.mem_map.mp hp
    obtain ⟨c, tail, text, -⟩ := opens s hs
    rw [text]
    exact List.cons_ne_nil c tail
  obtain ⟨count, short⟩ := length_intercalate separator nonempty
  rw [List.length_map] at count
  exact ⟨count, fun s hs => short s.text (List.mem_map_of_mem hs)⟩

end

end CatalogQuery.Grammar
