namespace CatalogQuery

/-- How many bits a significand has, and the powers of two it may be times. -/
structure BinaryFormat where
  precision : Nat
  minExponent : Int
  maxExponent : Int

namespace BinaryFormat

def double : BinaryFormat := ⟨53, -1074, 971⟩

def single : BinaryFormat := ⟨24, -149, 104⟩

/-- Whether a significand and an exponent are the form in which a value is
kept: the significand uses all its bits unless the exponent is the least. -/
def Canonical (f : BinaryFormat) (significand : Nat) (exponent : Int) : Prop :=
  significand < Nat.pow 2 f.precision ∧ f.minExponent ≤ exponent ∧ exponent ≤ f.maxExponent
    ∧ (Nat.pow 2 (f.precision - 1) ≤ significand ∨ exponent = f.minExponent)

instance (f : BinaryFormat) (significand : Nat) (exponent : Int) :
    Decidable (f.Canonical significand exponent) :=
  inferInstanceAs (Decidable (_ ∧ _))

end BinaryFormat

namespace Binary

/-- The number `significand * 2 ^ exponent` with a sign; zero has one too. -/
structure Finite (f : BinaryFormat) where
  negative : Bool
  significand : Nat
  exponent : Int
  canonical : f.Canonical significand exponent
  deriving DecidableEq

end Binary

inductive Binary (f : BinaryFormat)
  | nan
  | infinite (negative : Bool)
  | finite (value : Binary.Finite f)

namespace Binary

/-- `base ^ exponent` as a fraction. -/
def powerFraction (base : Nat) (exponent : Int) : Nat × Nat :=
  if 0 ≤ exponent then (Nat.pow base exponent.toNat, 1) else (1, Nat.pow base (-exponent).toNat)

/-- A fraction rounded to a whole number, a half going to the even neighbour. -/
def roundHalfEven (numerator denominator : Nat) : Nat :=
  let floor := numerator / denominator
  let rest := 2 * (numerator % denominator)
  if rest < denominator then floor
  else if denominator < rest then floor + 1
  else if floor % 2 = 0 then floor else floor + 1

/-- The exponent of the greatest power of two that is at most a fraction. -/
def floorLog2 (numerator denominator : Nat) : Int :=
  let guess : Int := (Nat.log2 numerator : Int) - Nat.log2 denominator
  let power := powerFraction 2 guess
  if power.1 * denominator ≤ numerator * power.2 then guess else guess - 1

/-- The number nearest to a fraction. Beyond the greatest number it is infinite. -/
def nearest (f : BinaryFormat) (negative : Bool) (numerator denominator : Nat) : Binary f :=
  let exponent : Int :=
    if numerator = 0 then f.minExponent
    else max f.minExponent (floorLog2 numerator denominator - (f.precision - 1))
  let unit := powerFraction 2 exponent
  let significand := roundHalfEven (numerator * unit.2) (denominator * unit.1)
  let (significand, exponent) :=
    if significand = Nat.pow 2 f.precision then (Nat.pow 2 (f.precision - 1), exponent + 1)
    else (significand, exponent)
  if h : f.Canonical significand exponent then .finite ⟨negative, significand, exponent, h⟩
  else .infinite negative

end Binary
end CatalogQuery
