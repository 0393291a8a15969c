import CatalogQuery.Proofs.Grammar.Literals
import CatalogQuery.Proofs.Grammar.Meaning

namespace CatalogQuery

open Grammar

/-- A layout that adds nothing but blanks to the commas of a list. -/
structure Layout.Spaced (layout : Layout) : Prop where
  opening : ∀ depth, Blank (layout.opening depth)
  separator : ∀ depth, ∃ blanks, layout.separator depth = ',' :: blanks ∧ Blank blanks
  closing : ∀ depth, Blank (layout.closing depth)

theorem Layout.spaced_compact : Layout.compact.Spaced :=
  ⟨fun _ => blank_nil, fun _ => ⟨[], rfl, blank_nil⟩, fun _ => blank_nil⟩

def Literal.argument (l : Literal) : Spelling Argument :=
  ⟨l.text, l.spelling.value.map .literal⟩

/-- A constraint in some layout, with what becomes of its normal form. -/
def Constraint.spelling {c : Category} {γ : Type} (wrap : AnyConstraint → γ) (layout : Layout)
    (depth : Nat) (tree : Constraint c) : Spelling γ :=
  ⟨tree.render layout depth,
    if tree.readable && tree.fits then some (wrap tree.normal.toAny) else none⟩

namespace Grammar

open Text (skipBlanks)
open Constraint (written)

theorem head_append {word rest : List Char} (h : Word word) :
    ((word ++ rest).head?.map isWordStart).getD false = true := by
  obtain ⟨c, tail, rfl, start⟩ := h.start
  exact start

/-- **A keyword with items in brackets is read item by item.** What it means is up to the
meaning of calls. -/
theorem readNode_call {γ : Type} {meaning : RawNode → Option γ}
    {result : List Argument → Option γ} {word : List Char} (hw : Word word)
    (call : ∀ source raws, meaning (.call (String.ofList word) source raws) =
      (raws.mapM RawNode.meaning?).bind result)
    {opening blanks ending : List Char} (ho : Blank opening) (hb : Blank blanks)
    (he : Blank ending) {items : List (Spelling Argument)} {depth : Nat}
    (opens : ∀ s ∈ items, Opens s.text)
    (read : ∀ s ∈ items, s.ReadBy (readNode depth) RawNode.meaning?)
    (hl : items.length ≤ depth + 1) :
    (⟨word ++ '(' :: (opening ++ (',' :: blanks).intercalate (items.map Spelling.text) ++ ending ++
        [')']), (valuesOf items).bind result⟩ : Spelling γ).ReadBy
      (readNode (depth + 1)) meaning := by
  intro rest _
  have leaves (inside : List Char) : Text.Leaves isWordChar ('(' :: inside) :=
    Text.leaves_cons.mpr (by decide)
  have bracket (inside : List Char) : skipBlanks ('(' :: inside) = '(' :: inside :=
    Text.skipBlanks_cons (by decide) _
  have arguments := readArguments_spelled ho hb he opens read rest hl
  simp only [List.append_assoc, List.cons_append, List.nil_append] at arguments ⊢
  rw [readNode, if_pos (head_append hw), readWordNode, scanWord_append hw (leaves _)]
  simp only [bracket]
  apply means_bind arguments
  · intro raws rest' values hraws hrest
    simp only [means, pure, Except.pure, Outcome.toOption_ok, Option.bind_some, call, hraws, hrest]
  · intro raws rest' hraws
    simp only [means, pure, Except.pure, Outcome.toOption_ok, Option.bind_some, call, hraws]
    rfl

theorem Stops.no_bracket {rest : List Char} (h : Stops rest) (inside : List Char) :
    skipBlanks rest ≠ '(' :: inside := by
  intro same
  rw [Stops, same] at h
  rcases h '(' rfl with h | h | h <;> exact absurd h (by decide)

theorem readNode_word {word : List Char} (hw : Word word) {depth : Nat} (hd : 0 < depth)
    {rest : List Char} (stops : Stops rest) {l : Literal} (hl : wordLiteral? word = some l) :
    readNode depth (word ++ rest) = .ok (.literal l, skipBlanks rest) := by
  obtain ⟨depth, rfl⟩ : ∃ n, depth = n + 1 := ⟨depth - 1, by omega⟩
  rw [readNode, if_pos (head_append hw), readWordNode, scanWord_append hw stops.leaves_word]
  dsimp only
  split
  · rename_i inside bracket
    exact absurd bracket (stops.no_bracket inside)
  · simp only [hl]

theorem readNode_other {text : List Char} {c : Char} {tail : List Char} (ht : text = c :: tail)
    (start : isWordStart c = false) (depth : Nat) :
    readNode (depth + 1) text =
      (readLiteral (depth + 1) false text).map fun (literal, rest) => (.literal literal, rest) := by
  have head : (text.head?.map isWordStart).getD false = false := by
    rw [ht]
    exact start
  rw [readNode, head, if_neg Bool.false_ne_true]

theorem text_starts_word (l : Literal) :
    (Word l.text ∧ wordLiteral? l.text = some l ∧ l.readable = true ∧ l.normal = l) ∨
      ∃ c rest, l.text = c :: rest ∧ isWordStart c = false := by
  by_cases h : l.kind = .multiple
  · cases l with
    | multiple first second rest => exact .inr ⟨_, _, rfl, by decide⟩
    | _ => cases h
  · apply (text_starts h).imp_right
    rintro ⟨c, rest, text, rfl | rfl | rfl | scalar⟩
    · exact ⟨_, rest, text, by decide⟩
    · exact ⟨_, rest, text, by decide⟩
    · exact ⟨_, rest, text, by decide⟩
    · exact ⟨c, rest, text, isWordStart_of_isScalarStart scalar⟩

theorem readNode_literal {γ : Type} {meaning : RawNode → Option γ} {wrap : Literal → γ}
    (literal : ∀ value, meaning (.literal value) = some (wrap value)) (l : Literal) {depth : Nat}
    (hd : l.text.length ≤ depth) :
    (⟨l.text, l.spelling.value.map wrap⟩ : Spelling γ).ReadBy (readNode depth) meaning := by
  intro rest stops
  obtain ⟨c, tail, text, -⟩ := opens_text l
  have pos : 0 < depth := by
    rw [text] at hd
    exact Nat.lt_of_lt_of_le (Nat.succ_pos _) hd
  rcases text_starts_word l with ⟨hw, found, readable, normal⟩ | ⟨c, tail, text, start⟩
  · simp only [readNode_word hw pos stops found, Literal.spelling, readable, normal, means,
      Outcome.toOption_ok, Option.bind_some, literal, if_true, Option.map_some,
      Text.skipBlanks_skipBlanks]
  · have read := readLiteral_spelling l hd false rest stops
    obtain ⟨depth, rfl⟩ : ∃ n, depth = n + 1 := ⟨depth - 1, by omega⟩
    have head : l.text ++ rest = c :: (tail ++ rest) := by
      rw [text]
      rfl
    change means meaning (readNode (depth + 1) (l.text ++ rest)) = _
    rw [readNode_other head start]
    exact means_map read literal

/-! ### Constraints -/

variable {c : Category}

def items (layout : Layout) (depth : Nat) (arguments : List Literal)
    (children : List (Constraint c)) : List (Spelling Argument) :=
  arguments.map Literal.argument ++ children.map (Constraint.spelling .constraint layout depth)

theorem text_items (layout : Layout) (depth : Nat) (arguments : List Literal)
    (children : List (Constraint c)) : (items layout depth arguments children).map Spelling.text =
      arguments.map Literal.text ++ children.map (Constraint.render layout depth) := by
  rw [items, List.map_append, List.map_map, List.map_map]
  rfl

/-- In every layout a constraint is its keyword with its items in brackets. -/
theorem render_items {layout : Layout} (spaced : layout.Spaced) (depth : Nat) (kind : Kind c)
    (arguments : List Literal) (children : List (Constraint c)) :
    ∃ opening blanks ending, Blank opening ∧ Blank blanks ∧ Blank ending ∧
      Constraint.render layout depth (.node kind arguments children) = kind.keyword.toList ++
        '(' :: (opening ++
          (',' :: blanks).intercalate
            ((items layout (depth + 1) arguments children).map Spelling.text) ++
          ending ++ [')']) := by
  rw [text_items]
  by_cases h : children = []
  · refine ⟨[], [], [], blank_nil, blank_nil, blank_nil, ?_⟩
    rw [h, Constraint.render_leaf]
    simp [Layout.flat]
  · obtain ⟨blanks, comma, hb⟩ := spaced.separator depth
    refine ⟨_, blanks, _, spaced.opening depth, hb, spaced.closing depth, ?_⟩
    rw [Constraint.render_container _ _ _ _ h, Layout.nested, comma]
    simp

theorem word_keyword (kind : Kind c) : Word kind.keyword.toList := by
  cases kind <;> exact word_of (by decide) (by decide)

theorem opens_word {word : List Char} (h : Word word) (rest : List Char) :
    Opens (word ++ rest) := by
  obtain ⟨c, tail, rfl, start⟩ := h.start
  exact ⟨c, tail ++ rest, rfl, isBlank_of_isWordStart start, Text.ne_of_class start (by decide)⟩

theorem opens_render {layout : Layout} (spaced : layout.Spaced) (depth : Nat)
    (tree : Constraint c) : Opens (tree.render layout depth) := by
  obtain ⟨kind, arguments, children⟩ := tree
  obtain ⟨opening, blanks, ending, -, -, -, text⟩ :=
    render_items spaced depth kind arguments children
  rw [text]
  exact opens_word (word_keyword kind) _

/-- The items of a constraint mean its literals and children in their normal forms. -/
theorem valuesOf_items (layout : Layout) (depth : Nat) (arguments : List Literal)
    (children : List (Constraint c)) : valuesOf (items layout depth arguments children) =
      if arguments.all Literal.readable && children.all fun child => child.readable && child.fits
      then some (written (arguments.map Literal.normal) (children.map Constraint.normal))
      else none := by
  have literals : valuesOf (arguments.map Literal.argument) =
      if arguments.all Literal.readable then
        some (arguments.map fun l => .literal l.normal)
      else none :=
    valuesOf_map fun l _ => by
      by_cases h : l.readable = true <;> simp [Literal.argument, Literal.spelling, h]
  have below : valuesOf (children.map (Constraint.spelling Argument.constraint layout depth)) =
      if children.all fun child => child.readable && child.fits then
        some (children.map fun child => .constraint child.normal.toAny)
      else none :=
    valuesOf_map fun child _ => rfl
  rw [items, valuesOf_append, literals, below]
  by_cases h : arguments.all Literal.readable = true
  · by_cases h' : (children.all fun child => child.readable && child.fits) = true
    · simp only [h, h', Bool.and_self, if_true, Option.bind_some, written, List.map_map]
      rfl
    · simp only [h, h', Bool.and_false, Bool.false_eq_true, if_true, if_false, Option.bind_some,
        Option.bind_none]
  · simp only [h, Bool.false_and, Bool.false_eq_true, if_false, Option.bind_none]

theorem all_and {α : Type} (p q : α → Bool) (as : List α) :
    (as.all fun a => p a && q a) = (as.all p && as.all q) := by
  rw [Bool.eq_iff_iff]
  simp only [List.all_eq_true, Bool.and_eq_true]
  exact forall₂_and

/-- The items of a constraint make it, if all of them can be read and it fits. -/
theorem built?_items (layout : Layout) (depth : Nat) (kind : Kind c) (arguments : List Literal)
    (children : List (Constraint c)) :
    (valuesOf (items layout depth arguments children)).bind (built? kind.keyword) =
      if (Constraint.node kind arguments children).readable &&
          (Constraint.node kind arguments children).fits then
        some (Constraint.node kind arguments children).normal.toAny
      else none := by
  rw [valuesOf_items, all_and, Constraint.readable_node, Constraint.fits_node,
    Constraint.normal_node]
  by_cases hl : arguments.all Literal.readable = true
  · by_cases hr : children.all Constraint.readable = true
    · by_cases hf : children.all Constraint.fits = true
      · simp only [hl, hr, hf, Bool.and_self, if_true, Option.bind_some, built?_written,
          Constraint.fitsKind_normal, Bool.true_and, Bool.and_true]
      · simp only [hl, hr, hf, Bool.and_false, Bool.false_eq_true, if_false, Option.bind_none]
    · simp only [hr, Bool.false_and, Bool.and_false, Bool.false_eq_true, if_false,
        Option.bind_none]
  · simp only [hl, Bool.false_and, Bool.false_eq_true, if_false, Option.bind_none]

theorem opens_items {layout : Layout} (spaced : layout.Spaced) (depth : Nat)
    (arguments : List Literal) (children : List (Constraint c)) :
    ∀ s ∈ items layout depth arguments children, Opens s.text := by
  intro s hs
  rcases List.mem_append.mp hs with hs | hs
  · obtain ⟨l, -, rfl⟩ := List.mem_map.mp hs
    exact opens_text l
  · obtain ⟨child, -, rfl⟩ := List.mem_map.mp hs
    exact opens_render spaced _ child

/-- What a keyword is taken for makes a constraint of what is read of its items. -/
theorem readNode_node {γ : Type} {meaning : RawNode → Option γ} {wrap : AnyConstraint → γ}
    {layout : Layout} (spaced : layout.Spaced) {kind : Kind c} (arguments : List Literal)
    {children : List (Constraint c)}
    (call : ∀ source raws, meaning (.call kind.keyword source raws) =
      (raws.mapM RawNode.meaning?).bind fun arguments => (built? kind.keyword arguments).map wrap)
    {level : Nat}
    (below : ∀ child ∈ children, ∀ depth, (child.render layout (level + 1)).length ≤ depth →
      (child.spelling .constraint layout (level + 1)).ReadBy (readNode depth) RawNode.meaning?)
    {depth : Nat} (hd : (Constraint.render layout level (.node kind arguments children)).length ≤
      depth) :
    (Constraint.spelling wrap layout level (.node kind arguments children)).ReadBy
      (readNode depth) meaning := by
  obtain ⟨opening, blanks, ending, ho, hb, he, text⟩ :=
    render_items spaced level kind arguments children
  have opens := opens_items spaced (level + 1) arguments children
  obtain ⟨count, short⟩ := bounds_intercalate (',' :: blanks) opens
  rw [text] at hd
  simp only [List.length_append, List.length_cons] at hd
  -- The brackets take one of the budget, and each item is shorter than the text in them.
  obtain ⟨depth, rfl⟩ : ∃ n, depth = n + 1 := ⟨depth - 1, by omega⟩
  have read : ∀ s ∈ items layout (level + 1) arguments children,
      s.ReadBy (readNode depth) RawNode.meaning? := by
    intro s hs
    have fits : s.text.length ≤ depth := Nat.le_trans (short s hs) (by omega)
    rcases List.mem_append.mp hs with hs | hs
    · obtain ⟨l, -, rfl⟩ := List.mem_map.mp hs
      have literal (value : Literal) :
          (RawNode.literal value).meaning? = some (Argument.literal value) := rfl
      exact readNode_literal literal l fits
    · obtain ⟨child, hchild, rfl⟩ := List.mem_map.mp hs
      exact below child hchild depth fits
  have call' (source : List Char) (raws : List RawNode) :
      meaning (.call (String.ofList kind.keyword.toList) source raws) =
        (raws.mapM RawNode.meaning?).bind fun arguments =>
          (built? kind.keyword arguments).map wrap := by
    rw [String.ofList_toList]
    exact call source raws
  have node := readNode_call (word_keyword kind) call' ho hb he opens read (by omega)
  have value : (valuesOf (items layout (level + 1) arguments children)).bind
      (fun arguments => (built? kind.keyword arguments).map wrap) =
        (Constraint.spelling wrap layout level (.node kind arguments children)).value := by
    have built := built?_items layout (level + 1) kind arguments children
    refine Option.map_bind.symm.trans ((congrArg (Option.map wrap) built).trans ?_)
    rw [Constraint.spelling]
    split <;> rfl
  rw [value, ← text] at node
  exact node

/-- **Constraints read back where they fit.** In every layout of blanks, the text of a
constraint means its normal form if it is readable and fits at every node, and nothing
otherwise. -/
theorem readNode_tree {layout : Layout} (spaced : layout.Spaced) (tree : Constraint c)
    (level : Nat) {depth : Nat} (hd : (tree.render layout level).length ≤ depth) :
    (tree.spelling .constraint layout level).ReadBy (readNode depth) RawNode.meaning? := by
  induction tree using Constraint.induct generalizing level depth with
  | node kind arguments children ih =>
    exact readNode_node spaced arguments (meaning?_call kind.keyword)
      (fun child hchild depth fits => ih child hchild (level + 1) fits) hd

end Grammar
end CatalogQuery
