import CatalogQuery.Decimal.Basic

namespace CatalogQuery

/-- The values between two bounds, of which one may be missing. -/
structure Range (α : Type) [LE α] where
  lower : Option α
  upper : Option α
  bounded : lower.isSome || upper.isSome
  ordered : ∀ l ∈ lower, ∀ u ∈ upper, l ≤ u

/-- Why two bounds make no range. -/
inductive RangeFault (α : Type)
  | unbounded
  | inverted (lower upper : α)

namespace Range

variable {α : Type} [LE α] [DecidableLE α]

/-- All values from a bound on. -/
def atLeast (lower : α) : Range α := ⟨some lower, none, rfl, by simp⟩

/-- All values up to a bound. -/
def atMost (upper : α) : Range α := ⟨none, some upper, rfl, by simp⟩

def between (lower upper : α) : Except (RangeFault α) (Range α) :=
  if h : lower ≤ upper then .ok ⟨some lower, some upper, rfl, by simpa using h⟩
  else .error (.inverted lower upper)

/-- The range of two bounds, of which one may be missing. -/
def make : Option α → Option α → Except (RangeFault α) (Range α)
  | none, none => .error .unbounded
  | some lower, none => .ok (atLeast lower)
  | none, some upper => .ok (atMost upper)
  | some lower, some upper => between lower upper

def contains (r : Range α) (value : α) : Bool :=
  r.lower.all (decide <| · ≤ value) && r.upper.all (decide <| value ≤ ·)

/-- Whether two ranges have equal bounds, by an equality of values. -/
def equal (same : α → α → Bool) (a b : Range α) : Bool :=
  sameBound a.lower b.lower && sameBound a.upper b.upper
where
  /-- Both bounds are missing, or both are there and equal. -/
  sameBound : Option α → Option α → Bool
    | none, none => true
    | some x, some y => same x y
    | _, _ => false

/-- A range of whole numbers as a range of decimals. -/
def toDecimal (r : Range Int64) : Range Decimal where
  lower := r.lower.map Decimal.ofInt64
  upper := r.upper.map Decimal.ofInt64
  bounded := by simpa using r.bounded
  ordered := by
    simp only [Option.mem_def, Option.map_eq_some_iff]
    rintro _ ⟨l, hl, rfl⟩ _ ⟨u, hu, rfl⟩
    exact (Decimal.ofInt64_le_ofInt64 l u).mpr (r.ordered l hl u hu)

end Range
end CatalogQuery
