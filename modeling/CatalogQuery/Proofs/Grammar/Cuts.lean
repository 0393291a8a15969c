import CatalogQuery.Proofs.Grammar.Punctuation

/-!
# Where tokens end

A text falls into tokens in one way at most: a string ends at its closing quote, and a
word or number where no more characters of its class follow. So the tokens of a text
decide whether it is read, and as what.

* `TokenAt`: a token with the text that follows it;
* `Cut`: a text cut into tokens, whether they make a tree or not;
* `Cut.unique`: there is one way at most;
* `readRoot_exact`: the texts that are read are the spellings, each of one tree, and it is
  their tokens that spell it.
-/

namespace CatalogQuery.Grammar

open Text (Leaves isBlank skipBlanks)

/-- A token where the rest of a text follows it. Whether it converts to a literal is left
open. -/
inductive TokenAt : List Char → List Char → Prop
  | mark {c : Char} (rest : List Char) : c ∈ marks → TokenAt [c] rest
  | string {mark : Char} {inside : List Char} (rest : List Char) : mark = '\'' ∨ mark = '"' →
    Text.Quoted mark inside → TokenAt (mark :: inside) rest
  | locale {tag : List Char} (rest : List Char) : '\x60' ∉ tag →
    TokenAt ('\x60' :: tag ++ ['\x60']) rest
  | range {content : List Char} (rest : List Char) : (∀ c ∈ content, c ≠ '[' ∧ c ≠ ']') →
    TokenAt ('[' :: content ++ [']']) rest
  | scalar {token rest : List Char} : Scalar token → Leaves isScalarChar rest →
    TokenAt token rest
  | word {token rest : List Char} : Word token → Leaves isWordChar rest → TokenAt token rest

/-- A text cut into tokens, with blanks before each and after the last one. -/
inductive Cut : List (List Char) → List Char → Prop
  | ending {blanks : List Char} : Blank blanks → Cut [] blanks
  | token {blanks token rest : List Char} {tokens : List (List Char)} :
    Blank blanks → TokenAt token rest → Cut tokens rest →
    Cut (token :: tokens) (blanks ++ (token ++ rest))

namespace TokenAt

variable {token rest : List Char}

/-- A token of a literal, wherever an item may end. -/
theorem of_tokenOf {l : Literal} (h : TokenOf token l) (stops : Stops rest) :
    TokenAt token rest := by
  cases h with
  | string quote quoted _ => exact .string rest quote quoted
  | locale tick _ => exact .locale rest tick
  | range inside _ => exact .range rest inside
  | scalar scalar _ => exact .scalar scalar stops.leaves_scalar
  | word word _ => exact .word word stops.leaves_word

theorem starts (h : TokenAt token rest) : ∃ c tail, token = c :: tail ∧ isBlank c = false := by
  cases h with
  | mark _ mark => exact ⟨_, _, rfl, class_of_mark (by decide) mark⟩
  | string _ quote _ =>
    refine ⟨_, _, rfl, ?_⟩
    rcases quote with rfl | rfl
    · decide
    · decide
  | locale => exact ⟨_, _, rfl, by decide⟩
  | range => exact ⟨_, _, rfl, by decide⟩
  | scalar scalar _ =>
    obtain ⟨c, tail, text, start⟩ := scalar.start
    exact ⟨c, tail, text, isBlank_of_isScalarStart start⟩
  | word word _ =>
    obtain ⟨c, tail, text, start⟩ := word.start
    exact ⟨c, tail, text, isBlank_of_isWordStart start⟩

end TokenAt

/-! ### One way to cut -/

def nextToken : List Char → Option (List Char × List Char)
  | [] => none
  | c :: after =>
    if c ∈ marks then some ([c], after)
    else if c = '\'' ∨ c = '"' then Text.scanQuoted? (c :: after)
    else if c = '\x60' then (scanBetween '\x60' '\x60' (· != '\x60') after).toOption
    else if c = '[' then (scanBetween '[' ']' (fun c => c != '[' && c != ']') after).toOption
    else if isScalarStart c then some (scanScalar (c :: after))
    else some (scanWord (c :: after))

/-- A token is the next one of a text that starts with it. -/
theorem nextToken_of {token rest : List Char} (h : TokenAt token rest) :
    nextToken (token ++ rest) = some (token, rest) := by
  cases h with
  | mark _ mark => rw [List.singleton_append, nextToken, if_pos mark]
  | @string mark inside _ quote quoted =>
    have scanned := Text.scanQuoted?_iff.mpr
      ⟨mark, inside, quote, quoted, rfl, (rfl : mark :: inside ++ rest = _)⟩
    have other : mark ∉ marks := by
      rcases quote with rfl | rfl
      · decide
      · decide
    rw [List.cons_append] at scanned ⊢
    rw [nextToken, if_neg other, if_pos quote, scanned]
  | locale _ tick =>
    have scanned := scanLocale_append tick rest
    simp only [List.cons_append, List.append_assoc, List.nil_append] at scanned ⊢
    rw [nextToken, if_neg (by decide), if_neg (by decide), if_pos rfl, scanned]
    rfl
  | range _ inside =>
    have scanned := scanRange_append inside rest
    simp only [List.cons_append, List.append_assoc, List.nil_append] at scanned ⊢
    rw [nextToken, if_neg (by decide), if_neg (by decide), if_neg (by decide), if_pos rfl, scanned]
    rfl
  | scalar scalar leaves =>
    have scanned := scanScalar_append scalar leaves
    obtain ⟨c, tail, rfl, start⟩ := scalar.start
    have mark : c ∉ marks := not_mark_of_class (by decide) start
    obtain ⟨quote, tick, bracket⟩ := not_opening_of_scalar start
    rw [List.cons_append] at scanned ⊢
    rw [nextToken, if_neg mark, if_neg quote, if_neg tick, if_neg bracket, if_pos start, scanned]
  | word word leaves =>
    have scanned := scanWord_append word leaves
    obtain ⟨c, tail, rfl, start⟩ := word.start
    have mark : c ∉ marks := not_mark_of_class (by decide) start
    obtain ⟨quote, tick, bracket⟩ := not_opening_of_word start
    have scalar : ¬isScalarStart c = true := by simp [isScalarStart_of_isWordStart start]
    rw [List.cons_append] at scanned ⊢
    rw [nextToken, if_neg mark, if_neg quote, if_neg tick, if_neg bracket, if_neg scalar, scanned]

/-- A text that is cut into tokens starts with the first one. -/
theorem Cut.first {token text : List Char} {tokens : List (List Char)}
    (h : Cut (token :: tokens) text) :
    ∃ rest, nextToken (skipBlanks text) = some (token, rest) ∧ Cut tokens rest := by
  cases h with
  | @token _ _ rest _ hb at_token h =>
    refine ⟨rest, ?_, h⟩
    have next := nextToken_of at_token
    obtain ⟨c, tail, rfl, blank⟩ := at_token.starts
    rw [List.cons_append] at next ⊢
    rw [Text.skipBlanks_append hb, Text.skipBlanks_cons blank, next]

theorem Cut.none {text : List Char} (h : Cut [] text) : nextToken (skipBlanks text) = none := by
  cases h with
  | ending hb =>
    have blank := Text.skipBlanks_append hb []
    rw [List.append_nil] at blank
    rw [blank]
    rfl

/-- **A text is cut into tokens in one way at most.** -/
theorem Cut.unique {text : List Char} {tokens tokens' : List (List Char)} (h : Cut tokens text)
    (h' : Cut tokens' text) : tokens = tokens' := by
  induction tokens generalizing text tokens' with
  | nil =>
    cases tokens' with
    | nil => rfl
    | cons token' tokens' =>
      obtain ⟨rest', next', -⟩ := h'.first
      rw [h.none] at next'
      cases next'
  | cons token tokens ih =>
    obtain ⟨rest, next, hrest⟩ := h.first
    cases tokens' with
    | nil =>
      rw [h'.none] at next
      cases next
    | cons token' tokens' =>
      obtain ⟨rest', next', hrest'⟩ := h'.first
      rw [next] at next'
      cases next'
      rw [ih hrest hrest']

/-! ### The tokens of trees -/

theorem Cut.after_blanks {blanks text : List Char} {tokens : List (List Char)} (hb : Blank blanks)
    (h : Cut tokens text) : Cut tokens (blanks ++ text) := by
  cases h with
  | ending hb' => exact .ending (blank_append hb hb')
  | token hb' at_token h =>
    rw [← List.append_assoc]
    exact .token (blank_append hb hb') at_token h

/-- Wherever an item may end, a text laid out of tokens is cut into them. -/
def Cuts (tokens : List (List Char)) : Prop :=
  ∀ ⦃text rest : List Char⦄ ⦃others : List (List Char)⦄, LaidOut tokens text → Stops rest →
    Cut others rest → Cut (tokens ++ others) (text ++ rest)

/-- A mark is cut off whatever follows it. -/
theorem cut_mark {c : Char} (hc : c ∈ marks) {tokens : List (List Char)} {text rest : List Char}
    {others : List (List Char)} (h : LaidOut ([c] :: tokens) text)
    (next : ∀ after, LaidOut tokens after → Cut others (after ++ rest)) :
    Cut ([c] :: others) (text ++ rest) := by
  cases h with
  | @token _ _ after _ hb h =>
    rw [List.append_assoc, List.append_assoc]
    exact .token hb (.mark _ hc) (next after h)

theorem cut_further {γ : Type} {tokens : γ → List (List Char)} {items : List γ}
    (each : ∀ i ∈ items, Cuts (tokens i)) {closing : Char} (hc : closing = ')' ∨ closing = '\x7d')
    {text rest : List Char} {others : List (List Char)}
    (h : LaidOut (items.flatMap (fun i => [','] :: tokens i) ++ [[closing]]) text)
    (hr : Cut others rest) :
    Cut (items.flatMap (fun i => [','] :: tokens i) ++ [[closing]] ++ others) (text ++ rest) := by
  induction items generalizing text with
  | nil =>
    have mark : closing ∈ marks := by
      rcases hc with rfl | rfl
      · decide
      · decide
    apply cut_mark mark h
    intro after ha
    cases ha with
    | ending ha => exact hr.after_blanks ha
  | cons i items ih =>
    simp only [List.flatMap_cons, List.append_assoc, List.cons_append] at h ⊢
    apply cut_mark (by decide) h
    intro after ha
    obtain ⟨piece, further, rfl, hpiece, hfurther⟩ := LaidOut.append_iff.mp ha
    have cut := ih (fun i hi => each i (List.mem_cons_of_mem _ hi)) hfurther
    rw [List.append_assoc] at cut ⊢
    exact each i List.mem_cons_self hpiece (stops_further hc hfurther rest) cut

theorem cut_commas {γ : Type} {tokens : γ → List (List Char)} {items : List γ}
    (each : ∀ i ∈ items, Cuts (tokens i)) {closing : Char} (hc : closing = ')' ∨ closing = '\x7d')
    {text rest : List Char} {others : List (List Char)}
    (h : LaidOut (commas (items.map tokens) ++ [[closing]]) text) (hr : Cut others rest) :
    Cut (commas (items.map tokens) ++ [[closing]] ++ others) (text ++ rest) := by
  cases items with
  | nil => exact cut_further each hc h hr
  | cons i items =>
    rw [commas_cons, List.append_assoc] at h
    obtain ⟨piece, further, rfl, hpiece, hfurther⟩ := LaidOut.append_iff.mp h
    have cut := cut_further (fun i hi => each i (List.mem_cons_of_mem _ hi)) hc hfurther hr
    rw [commas_cons, List.append_assoc, List.append_assoc]
    rw [List.append_assoc] at cut
    rw [List.append_assoc]
    exact each i List.mem_cons_self hpiece (stops_further hc hfurther rest) cut

theorem cuts_literal {l : Literal} {tokens : List (List Char)} (h : LiteralSpelled l tokens) :
    Cuts tokens := by
  induction h with
  | single token =>
    intro text rest others laidOut stops cut
    cases laidOut with
    | token hb after =>
      cases after with
      | ending ha =>
        rw [List.append_assoc, List.append_assoc]
        exact .token hb (.of_tokenOf token (stops.after_blanks ha)) (cut.after_blanks ha)
  | multiple first second others each ih =>
    intro text rest others laidOut stops cut
    exact cut_mark (by decide) laidOut fun after ha => cut_commas ih (.inr rfl) ha cut

theorem cuts_tree {tree : Tree} {tokens : List (List Char)} (h : TreeSpelled tree tokens) :
    Cuts tokens := by
  induction h with
  | literal h => exact cuts_literal h
  | @call word arguments hw each ih =>
    intro text rest others laidOut stops cut
    cases laidOut with
    | @token blanks _ after _ hb hafter =>
      obtain ⟨inside, -, bracket⟩ := hafter.skipBlanks_eq (by decide) rest
      have arguments := cut_mark (by decide) hafter fun after ha => cut_commas ih (.inl rfl) ha cut
      have text : blanks ++ (word ++ after) ++ rest = blanks ++ (word ++ (after ++ rest)) := by
        rw [List.append_assoc, List.append_assoc]
      rw [text]
      exact .token hb (.word hw (leaves_of_bracket bracket)) arguments

/-- **The reader accepts exactly its grammar.** A text spells a tree exactly if it is read
to its end as that tree. A text that is read spells exactly one tree, and there is exactly
one way to cut it into tokens. These are the tokens of the tree: no comma among them stands
at an end of its list or next to another, and no bracket is opened within braces. -/
theorem readRoot_exact (text : List Char) :
    (∀ tree, Spells tree text ↔ ∃ raw, readRoot text = .ok raw ∧ raw.tree = tree) ∧
      ∀ raw, readRoot text = .ok raw →
        (∃! tree, Spells tree text) ∧
        ∃ tokens, (∀ other, Cut other text ↔ other = tokens) ∧ TreeSpelled raw.tree tokens ∧
          Punctuated tokens := by
  refine ⟨fun tree => spells_iff_readRoot, ?_⟩
  intro raw read
  have spells := spells_of_readRoot read
  refine ⟨⟨raw.tree, spells, fun tree other => other.unique spells⟩, ?_⟩
  obtain ⟨tokens, spelled, laidOut⟩ := spells
  have cut : Cut tokens text := by
    have whole := cuts_tree spelled laidOut stops_nil (.ending blank_nil)
    rwa [List.append_nil, List.append_nil] at whole
  refine ⟨tokens, ?_, spelled, spelled.punctuated⟩
  intro other
  constructor
  · exact fun h => h.unique cut
  · rintro rfl
    exact cut

/-- A call with two truth values in braces, and blanks between the tokens. -/
def flagCall : List Char :=
  [' ', 'f', '(', '\n', '\x7b', 't', 'r', 'u', 'e', ' ', ',', 'f', 'a', 'l', 's', 'e', '\x7d',
    ' ', ')']

theorem flagCall_read_once :
    (∃ raw, readRoot flagCall = .ok raw ∧
      raw.tree = .call "f" [.literal (.multiple (.boolean true) (.boolean false) [])]) ∧
    ∃! tree, Spells tree flagCall := by
  obtain ⟨raw, read, tree⟩ : ∃ raw, readRoot flagCall = .ok raw ∧
    raw.tree = .call "f" [.literal (.multiple (.boolean true) (.boolean false) [])] := ⟨_, rfl, rfl⟩
  exact ⟨⟨raw, read, tree⟩, ((readRoot_exact flagCall).2 raw read).1⟩

end CatalogQuery.Grammar
