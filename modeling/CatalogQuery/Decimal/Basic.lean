/-!
# Decimal numbers

A decimal number is a sign and a coefficient of at most 96 bits with at most 28
of its digits after the point. The number of places is kept, so `1.5` and `1.50`
are two decimals of one value, and so is the sign of a zero; equality and order
go by the value.
-/

namespace CatalogQuery

/-- The first coefficient that is too large, `2 ^ 96`. -/
def Decimal.limit : Nat := 79228162514264337593543950336

/-- The most digits that may stand after the point. -/
def Decimal.maxScale : Nat := 28

/-- The number `coefficient / 10 ^ scale` or its negative, written with `scale`
digits after the point. A zero may be negative; only its text shows that. -/
structure Decimal where
  negative : Bool
  coefficient : Nat
  scale : Nat
  coefficient_lt : coefficient < Decimal.limit
  scale_le : scale ≤ Decimal.maxScale
  deriving DecidableEq, Repr

namespace Decimal

/-- The coefficient with its sign. -/
def mantissa (d : Decimal) : Int := if d.negative then -d.coefficient else d.coefficient

/-- The whole number a decimal has when it is counted in units of `10 ^ -(scale + places)`. -/
def inUnits (d : Decimal) (places : Nat) : Int := d.mantissa * Nat.pow 10 places

/-- Whether two decimals stand for the same number. -/
def equal (a b : Decimal) : Bool := a.inUnits b.scale == b.inUnits a.scale

/-- Decimals are ordered by the numbers they stand for. -/
instance instLE : LE Decimal := ⟨fun a b => a.inUnits b.scale ≤ b.inUnits a.scale⟩

instance (a b : Decimal) : Decidable (a ≤ b) :=
  inferInstanceAs (Decidable (a.inUnits b.scale ≤ b.inUnits a.scale))

/-- A decimal of these parts, if the coefficient and the places fit. -/
def ofParts? (negative : Bool) (coefficient scale : Nat) : Option Decimal :=
  if h : coefficient < limit ∧ scale ≤ maxScale then
    some ⟨negative, coefficient, scale, h.1, h.2⟩
  else none

/-- A whole number as a decimal without places, if it fits. -/
def ofWhole? (n : Int) : Option Decimal := ofParts? (n < 0) n.natAbs 0

/-- A whole number of 64 bits as a decimal without places. -/
def ofInt64 (n : Int64) : Decimal where
  negative := n.toInt < 0
  coefficient := n.toInt.natAbs
  scale := 0
  coefficient_lt := by
    have h₁ := n.toInt_lt
    have h₂ := n.le_toInt
    simp only [limit]
    omega
  scale_le := Nat.zero_le _

theorem mantissa_ofInt64 (n : Int64) : (ofInt64 n).mantissa = n.toInt := by
  simp only [mantissa, ofInt64, decide_eq_true_eq]
  split <;> omega

theorem le_def (a b : Decimal) : a ≤ b ↔ a.inUnits b.scale ≤ b.inUnits a.scale := Iff.rfl

theorem ofInt64_le_ofInt64 (m n : Int64) : ofInt64 m ≤ ofInt64 n ↔ m ≤ n := by
  rw [le_def, inUnits, inUnits, mantissa_ofInt64, mantissa_ofInt64, Int64.le_iff_toInt_le]
  simp [ofInt64]

theorem equal_iff (a b : Decimal) : a.equal b = true ↔ a.inUnits b.scale = b.inUnits a.scale := by
  simp [equal]

end Decimal
end CatalogQuery
