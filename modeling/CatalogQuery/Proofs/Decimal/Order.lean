import CatalogQuery.Proofs.Decimal.RoundTrip
import Mathlib.Algebra.Order.Ring.Int
import Mathlib.Tactic.Positivity

namespace CatalogQuery.Decimal

/-- Counting two decimals in smaller units keeps their order. -/
theorem le_iff_inUnits (a b : Decimal) (places : Nat) :
    a ≤ b ↔ a.inUnits b.scale * 10 ^ places ≤ b.inUnits a.scale * 10 ^ places := by
  have pos : (0 : Int) < 10 ^ places := by positivity
  exact (mul_le_mul_iff_of_pos_right pos).symm

/-- The middle decimal is cancelled once all three are counted in the smallest of their
units. -/
theorem le_trans {a b c : Decimal} (hab : a ≤ b) (hbc : b ≤ c) : a ≤ c := by
  rw [le_iff_inUnits a b c.scale, inUnits_eq, inUnits_eq] at hab
  rw [le_iff_inUnits b c a.scale, inUnits_eq, inUnits_eq] at hbc
  rw [le_iff_inUnits a c b.scale, inUnits_eq, inUnits_eq]
  calc a.mantissa * 10 ^ c.scale * 10 ^ b.scale
      = a.mantissa * 10 ^ b.scale * 10 ^ c.scale := by ring
    _ ≤ b.mantissa * 10 ^ a.scale * 10 ^ c.scale := hab
    _ = b.mantissa * 10 ^ c.scale * 10 ^ a.scale := by ring
    _ ≤ c.mantissa * 10 ^ b.scale * 10 ^ a.scale := hbc
    _ = c.mantissa * 10 ^ a.scale * 10 ^ b.scale := by ring

instance instIsPreorder : Std.IsPreorder Decimal where
  le_refl a := Int.le_refl (a.inUnits a.scale)
  le_trans _ _ _ := le_trans

theorem le_congr_left {a a' : Decimal} (h : a.equal a' = true) (b : Decimal) :
    a ≤ b ↔ a' ≤ b := by
  have same : a.mantissa * 10 ^ a'.scale = a'.mantissa * 10 ^ a.scale := by
    simpa only [inUnits_eq] using (equal_iff a a').mp h
  have left : a.inUnits b.scale * 10 ^ a'.scale = a'.inUnits b.scale * 10 ^ a.scale := by
    rw [inUnits_eq, inUnits_eq]
    calc a.mantissa * 10 ^ b.scale * 10 ^ a'.scale
        = a.mantissa * 10 ^ a'.scale * 10 ^ b.scale := by ring
      _ = a'.mantissa * 10 ^ a.scale * 10 ^ b.scale := by rw [same]
      _ = a'.mantissa * 10 ^ b.scale * 10 ^ a.scale := by ring
  have right : b.inUnits a.scale * 10 ^ a'.scale = b.inUnits a'.scale * 10 ^ a.scale := by
    rw [inUnits_eq, inUnits_eq]
    ring
  rw [le_iff_inUnits a b a'.scale, le_iff_inUnits a' b a.scale, left, right]

theorem le_congr_right {b b' : Decimal} (h : b.equal b' = true) (a : Decimal) :
    a ≤ b ↔ a ≤ b' := by
  have same : b.mantissa * 10 ^ b'.scale = b'.mantissa * 10 ^ b.scale := by
    simpa only [inUnits_eq] using (equal_iff b b').mp h
  have right : b.inUnits a.scale * 10 ^ b'.scale = b'.inUnits a.scale * 10 ^ b.scale := by
    rw [inUnits_eq, inUnits_eq]
    calc b.mantissa * 10 ^ a.scale * 10 ^ b'.scale
        = b.mantissa * 10 ^ b'.scale * 10 ^ a.scale := by ring
      _ = b'.mantissa * 10 ^ b.scale * 10 ^ a.scale := by rw [same]
      _ = b'.mantissa * 10 ^ a.scale * 10 ^ b.scale := by ring
  have left : a.inUnits b.scale * 10 ^ b'.scale = a.inUnits b'.scale * 10 ^ b.scale := by
    rw [inUnits_eq, inUnits_eq]
    ring
  rw [le_iff_inUnits a b b'.scale, le_iff_inUnits a b' b.scale, left, right]

theorem normal_le_normal (a b : Decimal) : a.normal ≤ b.normal ↔ a ≤ b := by
  rw [le_congr_left a.equal_normal b, le_congr_right b.equal_normal a.normal]

theorem equal_unsignedZero (d : Decimal) : d.equal d.unsignedZero = true := by
  have scale : d.unsignedZero.scale = d.scale := rfl
  rw [equal_iff, inUnits_eq, inUnits_eq, mantissa_unsignedZero, scale]

theorem unsignedZero_le_unsignedZero (a b : Decimal) : a.unsignedZero ≤ b.unsignedZero ↔ a ≤ b := by
  rw [le_congr_left a.equal_unsignedZero b, le_congr_right b.equal_unsignedZero a.unsignedZero]

end CatalogQuery.Decimal
