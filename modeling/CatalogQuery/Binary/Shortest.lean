import CatalogQuery.Binary.Basic
import CatalogQuery.Text.Digits

/-!
# The shortest decimal that reads back

The decimals that read back as a given binary number are those between its two
rounding boundaries. Among them `shortest` takes one with the fewest digits, and
of two the nearer. Where two are equally near, the form that is written decides.

For each count of digits only the two neighbours of the number on the grid of
decimals with that many digits can be the nearest, so no others are tried.
-/

namespace CatalogQuery.Binary

/-- The number `coefficient * 10 ^ power`. -/
structure DecimalForm where
  coefficient : Nat
  power : Int
  deriving DecidableEq, Repr

/-- Which of two equally near decimals is taken. -/
inductive Tie
  /-- The one whose last digit is even. -/
  | even
  /-- The greater one. -/
  | greater
  deriving DecidableEq, Repr

/-- Whether the lower of two neighbours is taken, of which `below` is the lower
coefficient, when they are equally near. -/
def Tie.takesLower (tie : Tie) (below : Nat) : Bool :=
  match tie with
  | .even => below % 2 == 0
  | .greater => false

/-- The greatest number of digits that is ever needed. -/
def mostDigits : Nat := 17

namespace Finite

variable {f : BinaryFormat}

/-- The number in quarters of a unit in the last place, with its boundaries.
Below a significand of one bit the lower boundary is nearer. -/
def quarters (x : Finite f) : Nat × Nat × Nat :=
  let below :=
    if x.significand = Nat.pow 2 (f.precision - 1) ∧ f.minExponent < x.exponent then 1 else 2
  (4 * x.significand - below, 4 * x.significand, 4 * x.significand + 2)

def fraction (x : Finite f) : Nat × Nat :=
  let unit := powerFraction 2 x.exponent
  (x.significand * unit.1, unit.2)

/-- Whether a decimal reads back as the number. A boundary does if the
significand is even. -/
def readsBack (x : Finite f) (d : DecimalForm) : Bool :=
  let (low, _, high) := x.quarters
  let two := powerFraction 2 (x.exponent - 2)
  let ten := powerFraction 10 d.power
  let value := d.coefficient * ten.1 * two.2
  let scale := two.1 * ten.2
  if x.significand % 2 = 0 then low * scale ≤ value && value ≤ high * scale
  else low * scale < value && value < high * scale

/-- The exponent of the greatest power of ten that is at most the number. -/
def floorLog10 (x : Finite f) : Int :=
  let (numerator, denominator) := x.fraction
  if denominator ≤ numerator then
    ((Text.digitsOf (numerator / denominator)).length : Int) - 1
  else
    -((Text.digitsOf ((denominator + numerator - 1) / numerator - 1)).length : Int)

/-- The best decimal of `count` digits, if one reads back. -/
def withDigits? (x : Finite f) (tie : Tie) (count : Nat) : Option DecimalForm :=
  let power : Int := x.floorLog10 - count + 1
  let (numerator, denominator) := x.fraction
  let unit := powerFraction 10 power
  let below := numerator * unit.2 / (denominator * unit.1)
  let lower : DecimalForm := ⟨below, power⟩
  let upper : DecimalForm := ⟨below + 1, power⟩
  match x.readsBack lower, x.readsBack upper with
  | true, true =>
    let twice := 2 * numerator * unit.2
    let middle := (2 * below + 1) * (denominator * unit.1)
    if twice < middle ∨ twice = middle ∧ tie.takesLower below then some lower else some upper
  | true, false => some lower
  | false, true => some upper
  | false, false => none

end Finite

/-- A decimal without zeros at its end. At most `fuel` zeros are taken away. -/
def DecimalForm.trimmed : Nat → DecimalForm → DecimalForm
  | 0, d => d
  | fuel + 1, d =>
    if d.coefficient ≠ 0 ∧ d.coefficient % 10 = 0 then
      trimmed fuel ⟨d.coefficient / 10, d.power + 1⟩
    else d

/-- The shortest decimal that reads back; zero is `0 * 10 ^ 0`. -/
def Finite.shortest {f : BinaryFormat} (x : Finite f) (tie : Tie) : DecimalForm :=
  if x.significand = 0 then ⟨0, 0⟩
  else
    match (List.range mostDigits).findSome? fun i => x.withDigits? tie (i + 1) with
    | some d => d.trimmed mostDigits
    | none => ⟨x.fraction.1 / x.fraction.2, 0⟩

end CatalogQuery.Binary
