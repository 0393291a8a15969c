import CatalogQuery.Grammar.Resolve
import CatalogQuery.Proofs.Grammar.Exact
import CatalogQuery.Proofs.Text.Positions

namespace CatalogQuery

namespace Grammar

open Text (isBlank skipBlanks)

structure Call where
  keyword : String
  /-- All of the text from the keyword on. -/
  source : List Char
  arguments : List RawNode

mutual

/-- The calls of a raw tree: those in the arguments from left to right, and then the call. -/
def RawNode.calls : RawNode → List Call
  | .literal _ => []
  | .call keyword source arguments => callsAll arguments ++ [⟨keyword, source, arguments⟩]

def RawNode.callsAll : List RawNode → List Call
  | [] => []
  | first :: rest => first.calls ++ callsAll rest

end

theorem RawNode.callsAll_eq (raws : List RawNode) : callsAll raws = raws.flatMap calls := by
  induction raws with
  | nil => rfl
  | cons raw raws ih => rw [callsAll, ih, List.flatMap_cons]

theorem RawNode.calls_call (keyword : String) (source : List Char) (arguments : List RawNode) :
    calls (.call keyword source arguments) =
      arguments.flatMap calls ++ [⟨keyword, source, arguments⟩] := by
  rw [calls, callsAll_eq]

/-- A text ends with the source of a call, which starts with the keyword and after blanks with
the bracket. -/
structure Call.StandsIn (call : Call) (text : List Char) : Prop where
  ending : call.source <:+ text
  keyword : ∃ blanks rest, Blank blanks ∧
    call.source = call.keyword.toList ++ (blanks ++ '(' :: rest)

theorem Call.StandsIn.grow {call : Call} {text whole : List Char} (h : call.StandsIn text)
    (ending : text <:+ whole) : call.StandsIn whole :=
  ⟨h.ending.trans ending, h.keyword⟩

/-! ### What readers leave -/

theorem StartsWith.ending {tokens : List (List Char)} {text rest : List Char}
    (h : StartsWith tokens text rest) : rest <:+ text := by
  obtain ⟨piece, -, rfl⟩ := h
  exact List.suffix_append piece rest

theorem skipBlanks_ending (text : List Char) : skipBlanks text <:+ text :=
  List.dropWhile_suffix isBlank

theorem ending_of_mark {c : Char} {text rest : List Char} (h : skipBlanks text = c :: rest) :
    rest <:+ text :=
  (StartsWith.mark h).ending

section
variable {α : Type} {P : α → List Char → Prop} {item : Reader α}

/-- A reader leaves an end of a text, and what it has read stands in the text. -/
def Stands (P : α → List Char → Prop) (item : Reader α) : Prop :=
  ∀ text a rest, item text = .ok (a, rest) → rest <:+ text ∧ P a text

/-- What stands in a text stands in every text that ends with it. -/
def Grows (P : α → List Char → Prop) : Prop :=
  ∀ a text whole, P a text → text <:+ whole → P a whole

/-- All members of a list stand in a text. -/
def EachOf (P : α → List Char → Prop) (as : List α) (text : List Char) : Prop :=
  ∀ a ∈ as, P a text

theorem EachOf.grows (grows : Grows P) : Grows (EachOf P) :=
  fun _ text whole all ending a ha => grows a text whole (all a ha) ending

theorem stands_items (grows : Grows P) (each : Stands P item) (closing : Char) (limit : Nat) :
    Stands (EachOf P) (readItems item closing limit) := by
  intro text as rest h
  induction limit generalizing text as rest with
  | zero => cases h
  | succ limit ih =>
    rw [readItems] at h
    split at h
    · cases h
    · rename_i c after start
      have ending := ending_of_mark start
      split at h
      · cases h
        exact ⟨ending, by simp [EachOf]⟩
      · split at h
        · obtain ⟨⟨first, middle⟩, hfirst, h⟩ := Outcome.bind_eq_ok.mp h
          obtain ⟨⟨others, last⟩, hothers, h⟩ := Outcome.bind_eq_ok.mp h
          cases h
          obtain ⟨left, own⟩ := each _ _ _ hfirst
          obtain ⟨further, below⟩ := ih _ _ _ hothers
          have begins := (skipBlanks_ending after).trans ending
          refine ⟨further.trans (left.trans begins), List.forall_mem_cons.mpr ⟨?_, ?_⟩⟩
          · exact grows _ _ _ own begins
          · exact EachOf.grows grows _ _ _ below (left.trans begins)
        · cases h

theorem stands_arguments (grows : Grows P) (each : Stands P item) (limit : Nat) :
    Stands (EachOf P) (readArguments item limit) := by
  intro text as rest h
  unfold readArguments at h
  split at h
  · rename_i start
    cases h
    exact ⟨ending_of_mark start, by simp [EachOf]⟩
  · obtain ⟨⟨first, middle⟩, hfirst, h⟩ := Outcome.bind_eq_ok.mp h
    obtain ⟨⟨others, last⟩, hothers, h⟩ := Outcome.bind_eq_ok.mp h
    cases h
    obtain ⟨left, own⟩ := each _ _ _ hfirst
    obtain ⟨further, below⟩ := stands_items grows each _ _ _ _ _ hothers
    have begins := skipBlanks_ending text
    refine ⟨further.trans (left.trans begins), List.forall_mem_cons.mpr ⟨?_, ?_⟩⟩
    · exact grows _ _ _ own begins
    · exact EachOf.grows grows _ _ _ below (left.trans begins)

end

def RawNode.StandsIn (raw : RawNode) (text : List Char) : Prop :=
  ∀ call ∈ raw.calls, call.StandsIn text

theorem RawNode.standsIn_grows : Grows RawNode.StandsIn :=
  fun _ _ _ all ending call hc => (all call hc).grow ending

theorem stands_wordNode {item : Reader RawNode} (each : Stands RawNode.StandsIn item)
    (limit : Nat) : Stands RawNode.StandsIn (readWordNode item limit) := by
  intro text raw rest h
  have split := List.takeWhile_append_dropWhile (p := isWordChar) (l := text)
  rw [readWordNode, scanWord] at h
  dsimp only at h
  generalize text.takeWhile isWordChar = word at h split
  generalize text.dropWhile isWordChar = left at h split
  have ending : left <:+ text := split ▸ List.suffix_append word left
  split at h
  · rename_i inside bracket
    obtain ⟨⟨arguments, after⟩, harguments, h⟩ := Outcome.bind_eq_ok.mp h
    cases h
    obtain ⟨further, below⟩ := stands_arguments RawNode.standsIn_grows each _ _ _ _ harguments
    have begins := (ending_of_mark bracket).trans ending
    refine ⟨further.trans begins, fun call hc => ?_⟩
    rw [RawNode.calls_call, List.mem_append, List.mem_flatMap, List.mem_singleton] at hc
    rcases hc with ⟨argument, ha, hc⟩ | rfl
    · exact (below argument ha call hc).grow begins
    · -- The source of a call is the text from which its word was taken.
      refine ⟨List.suffix_rfl, left.takeWhile isBlank, inside, ?_, ?_⟩
      · exact List.all_eq_true.mp List.all_takeWhile
      · rw [String.toList_ofList, ← bracket, Text.takeWhile_append_skipBlanks, split]
  · split at h
    · cases h
      exact ⟨(skipBlanks_ending left).trans ending, by simp [RawNode.StandsIn, RawNode.calls]⟩
    · cases h

/-- **The calls of what is read as a node stand where they are read.** -/
theorem stands_node (depth : Nat) : Stands RawNode.StandsIn (readNode depth) := by
  induction depth with
  | zero =>
    intro text raw rest h
    cases h
  | succ depth ih =>
    intro text raw rest h
    rw [readNode] at h
    split at h
    · exact stands_wordNode ih _ _ _ _ h
    · obtain ⟨⟨l, after⟩, hl, same⟩ := Outcome.map_eq_ok.mp h
      cases same
      obtain ⟨tokens, -, taken⟩ := takes_literal _ _ _ _ _ hl
      exact ⟨taken.ending, by simp [RawNode.StandsIn, RawNode.calls]⟩

/-- The calls of the raw tree of a text stand in the text. -/
theorem stands_of_readRoot {text : List Char} {raw : RawNode} (h : readRoot text = .ok raw) :
    raw.StandsIn text := by
  obtain ⟨⟨node, rest⟩, read, root⟩ := Outcome.bind_eq_ok.mp h
  dsimp only at root
  split at root
  · cases root
    obtain ⟨-, all⟩ := stands_node _ _ _ _ read
    exact RawNode.standsIn_grows _ _ _ all (skipBlanks_ending text)
  · cases root

end Grammar
end CatalogQuery
