import CatalogQuery.Query.Basic

/-!
# Digests of queries

A query that is asked for its digest keeps it. Queries with different digests differ, which
then need not be found out from their parts. A digest is made of words that say the values in a
query and not how they are written, so that equal queries have the same digest.
-/

namespace CatalogQuery

/-- What a digest is made of, piece by piece. -/
inductive Word
  | number (value : Int)
  | text (value : String)
  deriving DecidableEq, Hashable

namespace Word

/-- The words of a place in a list of choices. -/
def choice {α : Type} [BEq α] (choices : List α) (chosen : α) : Word :=
  .number (choices.idxOf chosen)

def ofOption {α : Type} (words : α → List Word) : Option α → List Word
  | none => [.number 0]
  | some a => .number 1 :: words a

/-- The words of a list, after their number. -/
def ofList {α : Type} (words : α → List Word) (as : List α) : List Word :=
  .number as.length :: as.flatMap words

end Word

namespace Decimal

/-- A coefficient and its places without the zeros at the end of the places. -/
def dropZeros : Nat → Nat → Nat × Nat
  | coefficient, 0 => (coefficient, 0)
  | coefficient, scale + 1 =>
    if coefficient % 10 = 0 then dropZeros (coefficient / 10) scale else (coefficient, scale + 1)

/-- The sign, coefficient and places of the number that a decimal stands for. Zero has neither
sign nor places. -/
def words (d : Decimal) : List Word :=
  if d.coefficient = 0 then [.number 0, .number 0, .number 0]
  else
    let (coefficient, scale) := dropZeros d.coefficient d.scale
    [.number (if d.negative then 1 else 0), .number coefficient, .number scale]

end Decimal

def Date.words (d : Date) : List Word := [.number d.day.year, .number d.day.month, .number d.day.day]

def Time.words (t : Time) : List Word := [.number t.second, .number t.nano]

def DateTime.words (t : DateTime) : List Word := t.date.words ++ t.time.words

/-- The words of the instant; the offset is left out. -/
def ZonedDateTime.words (z : ZonedDateTime) : List Word := z.utc.words

def Range.words {α : Type} [LE α] (own : α → List Word) (r : Range α) : List Word :=
  Word.ofOption own r.lower ++ Word.ofOption own r.upper

namespace Literal

def intWords (n : Int64) : List Word := [.number n.toInt]

def ofKind (kind : LiteralKind) (own : List Word) : List Word :=
  Word.choice LiteralKind.all kind :: own

mutual

def words : Literal → List Word
  | .string value => ofKind .string [.text value]
  | .int value => ofKind .int (intWords value)
  | .decimal value => ofKind .decimal value.words
  | .boolean value => ofKind .boolean [.number (if value then 1 else 0)]
  | .date value => ofKind .date value.words
  | .time value => ofKind .time value.words
  | .dateTime value => ofKind .dateTime value.words
  | .zonedDateTime value => ofKind .zonedDateTime value.words
  | .intRange range => ofKind .intRange (range.words intWords)
  | .decimalRange range => ofKind .decimalRange (range.words Decimal.words)
  | .dateTimeRange range => ofKind .dateTimeRange (range.words ZonedDateTime.words)
  | .enum token => ofKind .enum [.text token.word]
  | .locale tag => ofKind .locale [.text tag.tag]
  | .multiple first second rest =>
    ofKind .multiple
      (.number (rest.length + 2) :: (words first ++ words second ++ allWords rest))

def allWords : List Literal → List Word
  | [] => []
  | first :: rest => words first ++ allWords rest

end

end Literal

namespace Constraint

variable {c : Category}

mutual

def words : Constraint c → List Word
  | .node kind arguments children =>
    Word.choice (Kind.all c) kind ::
      (Word.ofList Literal.words arguments ++ .number children.length :: allWords children)

def allWords : List (Constraint c) → List Word
  | [] => []
  | first :: rest => words first ++ allWords rest

end

end Constraint

def Query.words (q : Query) : List Word :=
  q.head.words ++ Word.ofOption Constraint.words q.filterBy
    ++ Word.ofOption Constraint.words q.orderBy ++ Word.ofOption Constraint.words q.require

/-- A query with its digest, if it was asked for. -/
structure HeldQuery (digest : List Word → UInt64) where
  query : Query
  known : Option UInt64
  faithful : ∀ value ∈ known, value = digest query.words

namespace HeldQuery

variable {digest : List Word → UInt64}

def fresh (digest : List Word → UInt64) (q : Query) : HeldQuery digest := ⟨q, none, by simp⟩

def value (held : HeldQuery digest) : UInt64 := held.known.getD (digest held.query.words)

/-- The query after it was asked for its digest. -/
def digested (held : HeldQuery digest) : HeldQuery digest where
  query := held.query
  known := some held.value
  faithful := by
    intro value kept
    cases kept
    cases known : held.known with
    | none => simp [HeldQuery.value, known]
    | some own => simpa [HeldQuery.value, known] using held.faithful own known

/-- Whether two queries are equal. One and the same object is, and queries whose digests are
known to differ are not; else their parts are compared. -/
def equal (sameObject : Bool) (a b : HeldQuery digest) : Bool :=
  sameObject ||
    match a.known, b.known with
    | some own, some other => own == other && a.query.equal b.query
    | _, _ => a.query.equal b.query

end HeldQuery
end CatalogQuery
