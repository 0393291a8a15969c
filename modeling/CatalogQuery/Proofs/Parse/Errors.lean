import CatalogQuery.Grammar.Parse
import CatalogQuery.Proofs.Grammar.Faults

/-!
# Errors point at what they name

Parsing reads a raw tree and resolves it. An error that names a keyword comes from a call of
the raw tree with this keyword, and its place is where the call stands in the text.
-/

namespace CatalogQuery

def ParseError.keyword? : ParseError → Option String
  | .nestedQuery _ => some Query.keyword
  | .unknownKeyword keyword _ => some keyword
  | .invalidArguments keyword _ _ => some keyword
  | .unreadable _ _ => none
  | .unexpectedRoot _ _ _ => none

/-- Where an error is, a text goes on with a keyword and after blanks with a bracket. -/
def ParseError.PointsAt (e : ParseError) (keyword : String) (text : List Char) : Prop :=
  ∃ before blanks rest, text = before ++ (keyword.toList ++ (blanks ++ '(' :: rest)) ∧
    Grammar.Blank blanks ∧ e.place = .after before

namespace Grammar

/-- The place at which a call stands in a text. -/
def Call.StandsAt (call : Call) (text : List Char) (place : Text.Position) : Prop :=
  ∃ before, text = before ++ call.source ∧ place = .after before

section
variable {call : Call} {text : List Char} {place : Text.Position}

theorem Call.StandsAt.place_eq (h : call.StandsAt text place) :
    place = Site.place ⟨text, call.source⟩ := by
  obtain ⟨before, rfl, rfl⟩ := h
  exact (Text.Position.ofRemaining_append before call.source).symm

theorem Call.StandsIn.standsAt (h : call.StandsIn text) :
    call.StandsAt text (Site.place ⟨text, call.source⟩) := by
  obtain ⟨before, rfl⟩ := h.ending
  exact ⟨before, rfl, Text.Position.ofRemaining_append before call.source⟩

end

/-! ### Errors come from calls -/

/-- An error names the keyword of one of some calls and points at the call. -/
def Blames (text : List Char) (calls : List Call) (e : ParseError) : Prop :=
  ∃ call ∈ calls, e.keyword? = some call.keyword ∧ e.place = Site.place ⟨text, call.source⟩

section
variable {text : List Char} {calls others : List Call} {e : ParseError}

theorem Blames.mono (h : Blames text calls e) (sub : calls ⊆ others) : Blames text others e := by
  obtain ⟨call, hc, names⟩ := h
  exact ⟨call, sub hc, names⟩

theorem FirstFault.blames (h : FirstFault text calls e) : Blames text calls e := by
  obtain ⟨before, call, after, rfl, -, faults⟩ := h
  refine ⟨call, by simp, ?_⟩
  cases faults with
  | nestedQuery query => exact ⟨congrArg some query.symm, rfl⟩
  | unknownKeyword _ _ => exact ⟨rfl, rfl⟩
  | invalidArguments _ _ _ => exact ⟨rfl, rfl⟩

/-- An error names the query that stands at a site. -/
def BlamesQuery (site : Site) (e : ParseError) : Prop :=
  e.keyword? = some Query.keyword ∧ e.place = site.place

theorem blames_of_resolveParts {site : Site} {parts : QueryParts} {raws : List RawNode}
    (h : resolveParts site parts raws = .error e) :
    Blames site.text (raws.flatMap RawNode.calls) e ∨ BlamesQuery site e := by
  induction raws generalizing parts with
  | nil => cases h
  | cons raw raws ih =>
    have node := resolves_node site.text raw
    rw [resolveParts] at h
    cases resolved : resolve site.text raw with
    | error e' =>
      rw [resolved] at h node
      cases h
      exact .inl (node.blames.mono (by simp))
    | ok argument =>
      rw [resolved] at h
      dsimp only [bind, Except.bind] at h
      split at h
      · exact (ih h).imp_left fun blames => blames.mono (by simp)
      · cases h
        exact .inr ⟨rfl, rfl⟩

theorem blames_of_buildQuery {site : Site} {parts : QueryParts}
    (h : buildQuery site parts = .error e) : BlamesQuery site e := by
  unfold buildQuery at h
  split at h
  · cases h
    exact ⟨rfl, rfl⟩
  · split at h
    · cases h
    · cases h
      exact ⟨rfl, rfl⟩

theorem blames_of_resolveQuery {site : Site} {arguments : List RawNode}
    (h : resolveQuery site arguments = .error e) :
    Blames site.text (arguments.flatMap RawNode.calls) e ∨ BlamesQuery site e := by
  rw [resolveQuery] at h
  cases resolved : resolveParts site .none arguments with
  | error e' =>
    rw [resolved] at h
    cases h
    exact blames_of_resolveParts resolved
  | ok parts =>
    rw [resolved] at h
    exact .inr (blames_of_buildQuery h)

end

theorem resolves_root (text : List Char) {keyword : String} (source : List Char)
    (arguments : List RawNode) (other : keyword ≠ Query.keyword) :
    Resolves text (RawNode.calls (.call keyword source arguments)) (fun _ => True)
      (resolveRoot text (.call keyword source arguments)) := by
  rw [RawNode.calls_call, resolveRoot, if_neg other]
  apply (resolves_all fun raw _ => resolves_node text raw).bind
  intro found slots
  exact (resolves_call text keyword source slots).map _ fun _ _ => trivial

/-- **An error of resolving comes from a call of the raw tree.** -/
theorem blames_root {text : List Char} {raw : RawNode} {e : ParseError}
    (h : resolveRoot text raw = .error e) : Blames text raw.calls e := by
  cases raw with
  | literal value => cases h
  | call keyword source arguments =>
    by_cases query : keyword = Query.keyword
    · rw [resolveRoot, if_pos query] at h
      rw [RawNode.calls_call]
      cases resolved : resolveQuery ⟨text, source⟩ arguments with
      | ok q =>
        rw [resolved] at h
        cases h
      | error e' =>
        rw [resolved] at h
        cases h
        rcases blames_of_resolveQuery resolved with inside | ⟨names, place⟩
        · exact inside.mono (List.subset_append_left _ _)
        · exact ⟨_, List.mem_append_right _ List.mem_cons_self, query ▸ names, place⟩
    · have root := resolves_root text source arguments query
      rw [h] at root
      exact root.blames

end Grammar

open Grammar

theorem parse_of_readRoot {text : List Char} {raw : RawNode} (read : readRoot text = .ok raw) :
    parse text = resolveRoot text raw := by
  rw [parse, read]

/-- An error that names a keyword points at it. -/
theorem pointsAt_of_parse {text : List Char} {e : ParseError} {keyword : String}
    (h : parse text = .error e) (names : e.keyword? = some keyword) : e.PointsAt keyword text := by
  cases read : readRoot text with
  | error failure =>
    rw [parse, read] at h
    cases h
    cases names
  | ok raw =>
    -- The call that is blamed is one of the raw tree, and all of those stand in the text.
    rw [parse_of_readRoot read] at h
    obtain ⟨call, hc, named, place⟩ := blames_root h
    rw [names] at named
    cases named
    have stands := stands_of_readRoot read call hc
    obtain ⟨blanks, rest, blank, source⟩ := stands.keyword
    obtain ⟨before, whole, same⟩ := stands.standsAt
    rw [source] at whole
    exact ⟨before, blanks, rest, whole, blank, place.trans same⟩

/-- **The first call that does not fit is reported, at its place.** A text that is read as a
call is parsed exactly if all calls of its raw tree fit; otherwise the error is that of the
first one that does not, arguments before their calls. Whatever a text is read as, where an
error that names a keyword is, the text goes on with this keyword and a bracket. -/
theorem first_fault_reported :
    (∀ (text : List Char) (keyword : String) (source : List Char) (arguments : List RawNode),
      readRoot text = .ok (.call keyword source arguments) → keyword ≠ Query.keyword →
      ((∃ parsed, parse text = .ok parsed) ↔
        ∀ call ∈ RawNode.calls (.call keyword source arguments), call.Fits) ∧
      ∀ e, parse text = .error e ↔ ∃ before call after place,
        RawNode.calls (.call keyword source arguments) = before ++ call :: after ∧
        (∀ earlier ∈ before, earlier.Fits) ∧ call.StandsAt text place ∧ call.Faults place e) ∧
    ∀ (text : List Char) (e : ParseError) (keyword : String),
      parse text = .error e → e.keyword? = some keyword → e.PointsAt keyword text := by
  refine ⟨?_, fun text e keyword h names => pointsAt_of_parse h names⟩
  intro text keyword source arguments read other
  have root := resolves_root text source arguments other
  rw [parse_of_readRoot read]
  refine ⟨root.ok_iff, fun e => (root.error_iff e).trans ?_⟩
  constructor
  · rintro ⟨before, call, after, split, fit, faults⟩
    have stands := stands_of_readRoot read call (by simp [split])
    exact ⟨before, call, after, _, split, fit, stands.standsAt, faults⟩
  · rintro ⟨before, call, after, place, split, fit, stands, faults⟩
    rw [stands.place_eq] at faults
    exact ⟨before, call, after, split, fit, faults⟩

/-- A text with a call below another whose keyword is not in the catalog. -/
def strayCall : List Char :=
  ['a', 'n', 'd', '(', '\n', ' ', 'b', 'o', 'g', 'u', 's', '(', '1', ')', ')']

theorem strayCall_reported :
    parse strayCall = .error (.unknownKeyword "bogus" ⟨2, 2⟩) ∧
    ParseError.PointsAt (.unknownKeyword "bogus" ⟨2, 2⟩) "bogus" strayCall := by
  obtain ⟨calls, points⟩ := first_fault_reported
  have read : readRoot strayCall = .ok (.call "and" strayCall
    [.call "bogus" (strayCall.drop 6) [.literal (.int 1)]]) := rfl
  have unknown (c : Category) (kind : Kind c) : kind.keyword ≠ "bogus" := by
    cases kind <;> decide
  have error : parse strayCall = .error (.unknownKeyword "bogus" ⟨2, 2⟩) :=
    ((calls _ _ _ _ read (by decide)).2 _).mpr ⟨[], _, _, ⟨2, 2⟩, rfl, by simp,
      ⟨strayCall.take 6, rfl, rfl⟩, .unknownKeyword (by decide) unknown⟩
  exact ⟨error, points _ _ _ error rfl⟩

end CatalogQuery
