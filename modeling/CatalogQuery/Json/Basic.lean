import CatalogQuery.Binary.Reader

/-!
# JSON values

The values a query and its parts are stored as. A number is whole if it is
written without point and exponent and fits 64 bits, signed or unsigned, and
otherwise the nearest binary number of 64 bits. The members of an object are
kept in increasing order of their names.
-/

namespace CatalogQuery

/-- The whole numbers that are kept exactly. -/
def Json.IsWhole (value : Int) : Prop :=
  -9223372036854775808 ≤ value ∧ value < 18446744073709551616

instance (value : Int) : Decidable (Json.IsWhole value) :=
  inferInstanceAs (Decidable (_ ∧ _))

inductive Json.Number
  | whole (value : Int) (fits : Json.IsWhole value)
  | double (value : Binary.Finite .double)
  deriving DecidableEq

inductive Json
  | null
  | boolean (value : Bool)
  | number (value : Json.Number)
  | string (value : String)
  | array (items : List Json)
  | object (members : List (String × Json))

namespace Json

namespace Number

def ofInt64 (n : Int64) : Number :=
  .whole n.toInt ⟨n.le_toInt, Int.lt_trans n.toInt_lt (by decide)⟩

def toInt64? : Number → Option Int64
  | .whole value _ => if value < 9223372036854775808 then some (Int64.ofInt value) else none
  | .double _ => none

/-- A whole number written without point and exponent. -/
def readWhole? : List Char → Option Int
  | '-' :: digits =>
    if digits.isEmpty || !digits.all Char.isDigit then none
    else some (-(Text.numberOf digits : Int))
  | digits =>
    if digits.isEmpty || !digits.all Char.isDigit then none else some (Text.numberOf digits)

/-- The nearest binary number, unless it is infinite. -/
def readDouble? (text : List Char) : Option Number :=
  match Binary.read? .double text with
  | some (.finite x) => some (.double x)
  | _ => none

def ofText? (text : List Char) : Option Number :=
  match readWhole? text with
  | some value => if h : IsWhole value then some (.whole value h) else readDouble? text
  | none => readDouble? text

end Number

def ofInt64 (n : Int64) : Json := .number (.ofInt64 n)

/-- Adds a member to members in increasing order, in place of one of its name. -/
def insertMember (name : String) (value : Json) : List (String × Json) → List (String × Json)
  | [] => [(name, value)]
  | (other, old) :: rest =>
    if name = other then (name, value) :: rest
    else if name < other then (name, value) :: (other, old) :: rest
    else (other, old) :: insertMember name value rest

/-- An object with members in any order; the last of a name counts. -/
def ofMembers (members : List (String × Json)) : Json :=
  .object (members.foldl (fun sorted (name, value) => insertMember name value sorted) [])

def lookup? (name : String) : List (String × Json) → Option Json
  | [] => none
  | (other, value) :: rest => if other = name then some value else lookup? name rest

/-- The part of a record that has a name in an object and a place in a list. -/
def field? (place : Nat) (name : String) : Json → Option Json
  | .object members => lookup? name members
  | .array items => items[place]?
  | _ => none

/-- Whether a value may be a record of at most `width` parts. -/
def isRecord (width : Nat) : Json → Bool
  | .object _ => true
  | .array items => items.length ≤ width
  | _ => false

/-- Whether the parts of a record are read in the order of their places and not
in the order of their names. -/
def isPositional : Json → Bool
  | .array _ => true
  | _ => false

/-- One word of a fixed choice: a string, or an object with the word as its only
member and nothing in it. -/
def word? : Json → Option String
  | .string word => some word
  | .object [(word, .null)] => some word
  | _ => none

/-- The word that says what the rest of a record holds. At the head of a list it is
a plain string. -/
def tag? (name : String) (json : Json) : Option String :=
  match json.field? 0 name with
  | some (.string word) => some word
  | some value => if json.isPositional then none else value.word?
  | none => none

theorem sizeOf_lookup? {name : String} {value : Json} {members : List (String × Json)}
    (h : lookup? name members = some value) : sizeOf value < sizeOf members := by
  induction members with
  | nil => simp [lookup?] at h
  | cons member rest ih =>
    obtain ⟨other, first⟩ := member
    simp only [lookup?] at h
    split at h
    · cases h
      simp +arith
    · have := ih h
      simp +arith
      omega

/-- A part of a record is smaller than the record. -/
theorem sizeOf_field? {place : Nat} {name : String} {json value : Json}
    (h : json.field? place name = some value) : sizeOf value < sizeOf json := by
  unfold field? at h
  split at h
  · have := sizeOf_lookup? h
    simp
    omega
  · have := List.sizeOf_lt_of_mem (List.mem_of_getElem? h)
    simp
    omega
  · cases h

end Json
end CatalogQuery
