import CatalogQuery.Json.Basic

namespace CatalogQuery.Json

/-- Why a value does not decode. -/
inductive DecodeError (ε : Type)
  | malformed
  | refused (cause : ε)

abbrev Decoded (ε α : Type) := Except (DecodeError ε) α

/-- A value that is missing has not the form that is wanted. -/
def wanted {ε α : Type} : Option α → Decoded ε α
  | some value => .ok value
  | none => .error .malformed

/-- A cause for which a well-formed value is refused. -/
def accepted {ε α : Type} : Except ε α → Decoded ε α
  | .ok value => .ok value
  | .error cause => .error (.refused cause)

def mapCause {ε ε' α : Type} (f : ε → ε') : Decoded ε α → Decoded ε' α
  | .ok value => .ok value
  | .error .malformed => .error .malformed
  | .error (.refused cause) => .error (.refused (f cause))

def keepIf {ε α : Type} (condition : Bool) (value : α) : Decoded ε α :=
  if condition then .ok value else .error .malformed

def asString? : Json → Option String
  | .string value => some value
  | _ => none

def asBoolean? : Json → Option Bool
  | .boolean value => some value
  | _ => none

/-- A whole number of 64 bits. -/
def asInt64? : Json → Option Int64
  | .number value => value.toInt64?
  | _ => none

/-- A part that may be missing or `null`. -/
def optional? {α : Type} (decode : Json → Option α) : Option Json → Option (Option α)
  | none => some none
  | some .null => some none
  | some value => (decode value).map some

end CatalogQuery.Json
