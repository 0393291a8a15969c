import CatalogQuery.Decimal.Basic
import CatalogQuery.Text.Digits

/-!
# Reading decimals

A decimal is written with an optional sign, digits with at most one point
anywhere among them, and an underscore wherever a digit has come before. A
power of ten may follow after `e` or `E`.

Digits after the point that no longer fit are dropped: the first of them
decides whether the last kept digit is rounded up, a half going up, and the
characters after it have only to be well formed. Behind the last place of a
short coefficient an underscore counts as a digit that is rounded off. A whole
part that does not fit is an error.

A zero has no sign where it is written as zero. A negative number of which a
power of ten leaves nothing is a negative zero.
-/

namespace CatalogQuery.Decimal

/-- Why a text is no decimal. -/
inductive Fault
  | empty
  | noDigits
  | unknownCharacter
  | twoPoints
  | separatorFirst
  | tooManyDigits
  | roundingOverflow
  | malformedPower
  | powerTooLarge (power : Nat)
  | tooLarge
  deriving DecidableEq, Repr

def Fault.message : Fault → String
  | .empty => "Invalid decimal: empty"
  | .noDigits => "Invalid decimal: no digits found"
  | .unknownCharacter => "Invalid decimal: unknown character"
  | .twoPoints => "Invalid decimal: two decimal points"
  | .separatorFirst => "Invalid decimal: must start lead with a number"
  | .tooManyDigits => "Invalid decimal: overflow from too many digits"
  | .roundingOverflow => "Invalid decimal: overflow from mantissa after rounding"
  | .malformedPower => "Failed to parse"
  | .powerTooLarge power =>
    s!"Scale exceeds the maximum precision allowed: {power} > {maxScale}"
  | .tooLarge => "Number exceeds maximum value that can be represented."

structure Reading where
  coefficient : Nat
  scale : Nat
  /-- Whether the point has been read. -/
  point : Bool
  /-- Whether a digit has been read. -/
  started : Bool
  coefficient_lt : coefficient < limit
  scale_le : scale ≤ maxScale

namespace Reading

def start : Reading := ⟨0, 0, false, false, by decide, by decide⟩

/-- The places after the point once one more digit is read. -/
def nextScale (r : Reading) : Nat := if r.point then r.scale + 1 else r.scale

def Fits (r : Reading) (digit : Nat) : Prop :=
  10 * r.coefficient + digit < limit ∧ r.nextScale ≤ maxScale

instance (r : Reading) (digit : Nat) : Decidable (r.Fits digit) :=
  inferInstanceAs (Decidable (_ ∧ _))

def push (r : Reading) (digit : Nat) (h : r.Fits digit) : Reading :=
  ⟨10 * r.coefficient + digit, r.nextScale, r.point, true, h.1, h.2⟩

/-- Rounds by the first digit that did not fit, a half going up. If the coefficient
then has no room left, its last digit is rounded off as well. -/
def roundBy (r : Reading) (digit : Nat) : Except Fault Reading :=
  if digit < 5 then .ok r
  else if h : r.coefficient + 1 < limit then
    .ok ⟨r.coefficient + 1, r.scale, r.point, r.started, h, r.scale_le⟩
  else if r.scale = 0 then .error .roundingOverflow
  else
    .ok ⟨(r.coefficient + 5) / 10, r.scale - 1, r.point, r.started,
      by have := r.coefficient_lt; simp only [limit] at *; omega,
      by have := r.scale_le; omega⟩

/-- What is wrong with a character that cannot go on a number. -/
def refuse (c : Char) : Fault :=
  if c = '.' then .twoPoints else if c = '_' then .separatorFirst else .unknownCharacter

/-- A coefficient is short if it is below this number without its last digit. A
short coefficient fits 64 bits. -/
def shortLimit : Nat := 18446744073709551615 / 10 - 255

/-- All places are taken and the coefficient is short. -/
def IsFullShort (r : Reading) : Prop :=
  r.point = true ∧ r.scale = maxScale ∧ r.coefficient / 10 < shortLimit

instance (r : Reading) : Decidable r.IsFullShort := inferInstanceAs (Decidable (_ ∧ _))

/-- The characters after the last digit that counts. -/
def checkDropped : List Char → Except Fault Unit
  | [] => .ok ()
  | c :: rest => if c.isDigit || c == '_' then checkDropped rest else .error (refuse c)

def read (r : Reading) : List Char → Except Fault Reading
  | [] => if r.started then .ok r else .error .noDigits
  | c :: rest =>
    match Text.digit? c with
    | some digit =>
      if h : r.Fits digit then (r.push digit h).read rest
      else if r.point then do
        let rounded ← r.roundBy digit
        checkDropped rest
        return rounded
      else .error .tooManyDigits
    | none =>
      if c = '.' ∧ r.point = false then
        read ⟨r.coefficient, r.scale, true, r.started, r.coefficient_lt, r.scale_le⟩ rest
      else if c = '_' ∧ r.started then
        if r.IsFullShort then (checkDropped rest).map fun _ => r else r.read rest
      else .error (refuse c)

/-- The decimal that was read, with its sign; zero has none. -/
def toDecimal (r : Reading) (negative : Bool) : Decimal where
  negative := negative && r.coefficient != 0
  coefficient := r.coefficient
  scale := r.scale
  coefficient_lt := r.coefficient_lt
  scale_le := r.scale_le

end Reading

def readPlain : List Char → Except Fault Decimal
  | [] => .error .empty
  | '-' :: rest => (Reading.start.read rest).map (·.toDecimal true)
  | '+' :: rest => (Reading.start.read rest).map (·.toDecimal false)
  | text => (Reading.start.read text).map (·.toDecimal false)

/-- Whether a character stands before a power of ten. -/
def isPowerMark (c : Char) : Bool := c == 'e' || c == 'E'

/-- Reads a power of ten of 32 bits with an optional `+`. -/
def readPower (text : List Char) : Except Fault Nat :=
  let digits := match text with
    | '+' :: rest => rest
    | other => other
  match Text.readNatural 4294967295 .tooLarge digits with
  | .ok power => .ok power
  | .error _ => .error .malformedPower

/-- A coefficient without its last `places` digits, the first of them rounding, a
half going up. -/
def roundOff (coefficient places : Nat) : Nat :=
  if places = 0 then coefficient
  else
    let kept := coefficient / Nat.pow 10 places
    let first := coefficient / Nat.pow 10 (places - 1) % 10
    if 5 ≤ first then kept + 1 else kept

/-- A decimal divided by a power of ten, rounded to the places a decimal has. -/
def shiftDown (base : Decimal) (power : Nat) : Except Fault Decimal :=
  if maxScale < power then .error (.powerTooLarge power)
  else
    let excess := base.scale + power - maxScale
    let coefficient := roundOff base.coefficient excess
    match ofParts? base.negative coefficient (base.scale + power - excess) with
    | some d => .ok d
    | none => .error .tooLarge

def shiftUp (base : Decimal) (power : Nat) : Except Fault Decimal :=
  if power ≤ base.scale then
    .ok { base with
      scale := base.scale - power
      scale_le := Nat.le_trans (Nat.sub_le _ _) base.scale_le }
  else if maxScale < power then .error (.powerTooLarge power)
  else
    match ofParts? base.negative (base.coefficient * Nat.pow 10 (power - base.scale)) 0 with
    | some d => .ok d
    | none => .error .tooLarge

/-- Reads a decimal with a power of ten after the first `e` or `E`. -/
def readScientific (text : List Char) : Except Fault Decimal := do
  let base := text.takeWhile (!isPowerMark ·)
  match text.drop base.length with
  | [] => .error .malformedPower
  | _ :: power =>
    let base ← readPlain base
    match power with
    | '-' :: power => shiftDown base (← readPower power)
    | power => shiftUp base (← readPower power)

/-- Reads a decimal. A text with an `e` or `E` that is no plain decimal is read
as one with a power of ten. -/
def read (text : List Char) : Except Fault Decimal :=
  match readPlain text with
  | .ok d => .ok d
  | .error fault => if text.any isPowerMark then readScientific text else .error fault

end CatalogQuery.Decimal
