import CatalogQuery.Proofs.Grammar.Exact

namespace CatalogQuery.Grammar

/-- The characters that are a token of their own. -/
def marks : List Char := ['(', ')', ',', '\x7b', '\x7d']

/-- No comma stands right before another or a closing bracket, or right after an opening
one. -/
def MayPrecede (t u : List Char) : Prop :=
  (t = [','] → u ≠ [','] ∧ u ≠ [')'] ∧ u ≠ ['\x7d']) ∧ (u = [','] → t ≠ ['('] ∧ t ≠ ['\x7b'])

/-- As many braces are closed as are opened. -/
def Balanced (tokens : List (List Char)) : Prop := tokens.count ['\x7b'] = tokens.count ['\x7d']

/-- Each comma stands between two items, and a bracket is opened only where all braces
before it are closed. -/
structure Punctuated (tokens : List (List Char)) : Prop where
  commas : tokens.IsChain MayPrecede
  calls : ∀ before after, tokens = before ++ ['('] :: after → Balanced before

/-! ### Tokens that are no marks -/

theorem class_of_mark {p : Char → Bool} (none : marks.all (fun d => !p d) = true) {c : Char}
    (h : c ∈ marks) : p c = false := by
  simpa using List.all_eq_true.mp none c h

theorem not_mark_of_class {p : Char → Bool} (none : marks.all (fun d => !p d) = true) {c : Char}
    (h : p c = true) : c ∉ marks := by
  intro mark
  rw [class_of_mark none mark] at h
  cases h

/-- A token that starts with no mark. -/
def Plain (t : List Char) : Prop := ∀ c ∈ marks, t ≠ [c]

theorem plain_cons {c : Char} (h : c ∉ marks) (tail : List Char) : Plain (c :: tail) := by
  rintro d hd same
  cases same
  exact h hd

theorem Word.plain {word : List Char} (h : Word word) : Plain word := by
  obtain ⟨c, tail, rfl, start⟩ := h.start
  exact plain_cons (not_mark_of_class (by decide) start) tail

theorem TokenOf.plain {token : List Char} {l : Literal} (h : TokenOf token l) : Plain token := by
  cases h with
  | string quote _ _ =>
    apply plain_cons
    rcases quote with rfl | rfl
    · decide
    · decide
  | locale => exact plain_cons (by decide) _
  | range => exact plain_cons (by decide) _
  | scalar scalar _ =>
    obtain ⟨c, tail, rfl, start⟩ := scalar.start
    exact plain_cons (not_mark_of_class (by decide) start) tail
  | word word _ => exact word.plain

/-! ### Commas -/

/-- Tokens that may stand anywhere as far as commas go. -/
structure Item (tokens : List (List Char)) : Prop where
  nonempty : tokens ≠ []
  chain : tokens.IsChain MayPrecede
  first : ∀ t, ∀ u ∈ tokens.head?, MayPrecede t u
  last : ∀ t ∈ tokens.getLast?, ∀ u, MayPrecede t u

theorem Item.append {tokens others : List (List Char)} (h : Item tokens)
    (h' : others.IsChain MayPrecede) : (tokens ++ others).IsChain MayPrecede :=
  h.chain.append h' fun t ht u _ => h.last t ht u

theorem Item.cons_append {tokens others : List (List Char)} (h : Item tokens)
    (h' : others.IsChain MayPrecede) (t : List Char) :
    (t :: (tokens ++ others)).IsChain MayPrecede := by
  refine List.isChain_cons.mpr ⟨?_, h.append h'⟩
  obtain ⟨first, rest, rfl⟩ := List.exists_cons_of_ne_nil h.nonempty
  exact h.first t

section
variable {γ : Type} {tokens : γ → List (List Char)} {items : List γ}

theorem chain_further (each : ∀ i ∈ items, Item (tokens i)) (closing : Char) :
    (items.flatMap (fun i => [','] :: tokens i) ++ [[closing]]).IsChain MayPrecede := by
  induction items with
  | nil => exact .singleton _
  | cons i items ih =>
    rw [List.flatMap_cons, List.append_assoc]
    exact (each i List.mem_cons_self).cons_append
      (ih fun i hi => each i (List.mem_cons_of_mem _ hi)) _

theorem chain_commas (each : ∀ i ∈ items, Item (tokens i)) {t : List Char} {closing : Char}
    (empty : items = [] → MayPrecede t [closing]) :
    (t :: (commas (items.map tokens) ++ [[closing]])).IsChain MayPrecede := by
  cases items with
  | nil => exact .cons_cons (empty rfl) (.singleton _)
  | cons i items =>
    rw [commas_cons, List.append_assoc]
    exact (each i List.mem_cons_self).cons_append
      (chain_further (fun i hi => each i (List.mem_cons_of_mem _ hi)) closing) t

end

theorem Plain.precedes {t : List Char} (h : Plain t) (u : List Char) : MayPrecede t u :=
  ⟨fun same => absurd same (h ',' (by decide)),
    fun _ => ⟨h '(' (by decide), h '\x7b' (by decide)⟩⟩

theorem Plain.follows {u : List Char} (h : Plain u) (t : List Char) : MayPrecede t u :=
  ⟨fun _ => ⟨h ',' (by decide), h ')' (by decide), h '\x7d' (by decide)⟩,
    fun same => absurd same (h ',' (by decide))⟩

theorem item_literal {l : Literal} {tokens : List (List Char)} (h : LiteralSpelled l tokens) :
    Item tokens := by
  induction h with
  | single token =>
    refine ⟨List.cons_ne_nil _ _, .singleton _, ?_, ?_⟩
    · rintro t _ ⟨⟩
      exact token.plain.follows t
    · rintro _ ⟨⟩ u
      exact token.plain.precedes u
  | multiple first second others _ ih =>
    refine ⟨List.cons_ne_nil _ _, chain_commas ih (fun none => by cases none), ?_, ?_⟩
    · rintro t _ ⟨⟩
      simp [MayPrecede]
    · intro t ht u
      rw [List.getLast?_append] at ht
      cases ht
      simp [MayPrecede]

theorem item_tree {tree : Tree} {tokens : List (List Char)} (h : TreeSpelled tree tokens) :
    Item tokens := by
  induction h with
  | literal h => exact item_literal h
  | call arguments hw _ ih =>
    have inside : MayPrecede ['('] [')'] := by simp [MayPrecede]
    refine ⟨List.cons_ne_nil _ _, ?_, ?_, ?_⟩
    · exact .cons_cons (hw.plain.precedes _) (chain_commas ih fun _ => inside)
    · rintro t _ ⟨⟩
      exact hw.plain.follows t
    · intro t ht u
      rw [List.getLast?_append] at ht
      cases ht
      simp [MayPrecede]

/-! ### Braces -/

theorem Balanced.append {tokens others : List (List Char)} (h : Balanced tokens)
    (h' : Balanced others) : Balanced (tokens ++ others) := by
  rw [Balanced, List.count_append, List.count_append, h, h']

/-- Brackets are opened only outside of braces, and all braces are closed. -/
structure CallsOutside (tokens : List (List Char)) : Prop where
  balanced : Balanced tokens
  calls : ∀ before after, tokens = before ++ ['('] :: after → Balanced before

namespace CallsOutside

variable {tokens others : List (List Char)}

theorem append (h : CallsOutside tokens) (h' : CallsOutside others) :
    CallsOutside (tokens ++ others) := by
  refine ⟨h.balanced.append h'.balanced, ?_⟩
  intro before after same
  rcases List.append_eq_append_iff.mp same with ⟨rest, rfl, right⟩ | ⟨rest, left, right⟩
  · exact h.balanced.append (h'.calls rest after right)
  · cases rest with
    | nil =>
      rw [List.append_nil] at left
      exact left ▸ h.balanced
    | cons t rest =>
      rw [List.cons_append] at right
      obtain ⟨rfl, -⟩ := List.cons.inj right
      exact h.calls before rest left

theorem of_no_call (balanced : Balanced tokens) (none : ['('] ∉ tokens) : CallsOutside tokens := by
  refine ⟨balanced, ?_⟩
  rintro before after rfl
  exact absurd (List.mem_append_right _ List.mem_cons_self) none

theorem single {t : List Char} (opened : t ≠ ['\x7b']) (closed : t ≠ ['\x7d']) :
    CallsOutside [t] := by
  have balanced (before : List (List Char)) (h : before ⊆ [t]) : Balanced before := by
    have none {u : List Char} (other : t ≠ u) : before.count u = 0 := by
      apply List.count_eq_zero_of_not_mem
      intro hu
      exact other (List.mem_singleton.mp (h hu)).symm
    rw [Balanced, none opened, none closed]
  refine ⟨balanced _ (List.Subset.refl _), ?_⟩
  intro before after same
  apply balanced
  rw [same]
  exact List.subset_append_left _ _

theorem flatMap {γ : Type} {tokens : γ → List (List Char)} {items : List γ}
    (each : ∀ i ∈ items, CallsOutside (tokens i)) : CallsOutside (items.flatMap tokens) := by
  induction items with
  | nil => exact of_no_call rfl (by simp)
  | cons i items ih =>
    rw [List.flatMap_cons]
    exact (each i List.mem_cons_self).append (ih fun i hi => each i (List.mem_cons_of_mem _ hi))

theorem commas {γ : Type} {tokens : γ → List (List Char)} {items : List γ}
    (each : ∀ i ∈ items, CallsOutside (tokens i)) :
    CallsOutside (Grammar.commas (items.map tokens)) := by
  cases items with
  | nil => exact of_no_call rfl (by simp [Grammar.commas])
  | cons i items =>
    rw [commas_cons]
    refine (each i List.mem_cons_self).append (flatMap fun i hi => ?_)
    exact (single (by simp) (by simp)).append (each i (List.mem_cons_of_mem _ hi))

end CallsOutside

/-- A literal has no call among its tokens, and closes its braces. -/
theorem no_call_literal {l : Literal} {tokens : List (List Char)} (h : LiteralSpelled l tokens) :
    Balanced tokens ∧ ['('] ∉ tokens := by
  induction h with
  | single token =>
    have plain := token.plain
    have single := CallsOutside.single (plain '\x7b' (by decide)) (plain '\x7d' (by decide))
    refine ⟨single.balanced, ?_⟩
    intro call
    exact plain '(' (by decide) (List.mem_singleton.mp call).symm
  | multiple first second others _ ih =>
    have inside : CallsOutside (commas ((first :: second :: others).map Prod.snd)) :=
      .commas fun i hi => .of_no_call (ih i hi).1 (ih i hi).2
    constructor
    · simpa [Balanced] using inside.balanced
    · intro call
      rw [List.cons_append, List.mem_cons, List.mem_append, List.mem_singleton] at call
      rcases call with same | call | same
      · cases same
      · rcases mem_commas call with same | ⟨part, hpart, call⟩
        · cases same
        · obtain ⟨i, hi, rfl⟩ := List.mem_map.mp hpart
          exact (ih i hi).2 call
      · cases same

theorem callsOutside_tree {tree : Tree} {tokens : List (List Char)} (h : TreeSpelled tree tokens) :
    CallsOutside tokens := by
  induction h with
  | literal h =>
    obtain ⟨balanced, none⟩ := no_call_literal h
    exact .of_no_call balanced none
  | @call word arguments hw _ ih =>
    have plain : CallsOutside [word] :=
      .single (hw.plain '\x7b' (by decide)) (hw.plain '\x7d' (by decide))
    have opening : CallsOutside [['(']] := .single (by simp) (by simp)
    have closing : CallsOutside [[')']] := .single (by simp) (by simp)
    have whole := plain.append (opening.append ((CallsOutside.commas ih).append closing))
    exact whole

/-- **Commas stand between items and calls outside of braces**, in the tokens of every
tree. -/
theorem TreeSpelled.punctuated {tree : Tree} {tokens : List (List Char)}
    (h : TreeSpelled tree tokens) : Punctuated tokens :=
  ⟨(item_tree h).chain, (callsOutside_tree h).calls⟩

end CatalogQuery.Grammar
