import CatalogQuery.Binary.Basic
import CatalogQuery.Text.Digits

namespace CatalogQuery.Binary

/-- A power of ten past which every format is infinite or zero. -/
def decimalReach : Int := 400

/-- The number nearest to `coefficient * 10 ^ power`. -/
def ofDecimal (f : BinaryFormat) (negative : Bool) (coefficient : Nat) (power : Int) : Binary f :=
  let places : Int := (Text.digitsOf coefficient).length
  if coefficient = 0 ∨ places + power < -decimalReach then nearest f negative 0 1
  else if decimalReach < places + power then .infinite negative
  else
    let unit := powerFraction 10 power
    nearest f negative (coefficient * unit.1) unit.2

/-- A whole number with an optional sign and at least one digit. -/
def readPower? (text : List Char) : Option Int :=
  let digits := match text with
    | '-' :: rest => rest
    | '+' :: rest => rest
    | other => other
  if digits.isEmpty || !digits.all Char.isDigit then none
  else
    let power : Int := Text.numberOf digits
    some (if text.head? = some '-' then -power else power)

/-- Digits with an optional point and power of ten, without sign. -/
def readMagnitude? (f : BinaryFormat) (negative : Bool) (text : List Char) : Option (Binary f) :=
  let whole := text.takeWhile Char.isDigit
  let rest := text.drop whole.length
  let fraction := match rest with
    | '.' :: more => more.takeWhile Char.isDigit
    | _ => []
  let rest := match rest with
    | '.' :: more => more.drop fraction.length
    | other => other
  if whole.isEmpty && fraction.isEmpty then none
  else
    let coefficient := Text.numberOf (whole ++ fraction)
    match rest with
    | [] => some (ofDecimal f negative coefficient (-(fraction.length : Int)))
    | mark :: power =>
      if mark = 'e' ∨ mark = 'E' then
        (readPower? power).map fun p => ofDecimal f negative coefficient (p - fraction.length)
      else none

/-- A word for a number that is not finite, or digits. -/
def readUnsigned? (f : BinaryFormat) (negative : Bool) (text : List Char) : Option (Binary f) :=
  let word := String.ofList (text.map Char.toLower)
  if word = "nan" then some .nan
  else if word = "inf" ∨ word = "infinity" then some (.infinite negative)
  else readMagnitude? f negative text

/-- The binary number that a text says. -/
def read? (f : BinaryFormat) : List Char → Option (Binary f)
  | '-' :: rest => readUnsigned? f true rest
  | '+' :: rest => readUnsigned? f false rest
  | text => readUnsigned? f false text

end CatalogQuery.Binary
