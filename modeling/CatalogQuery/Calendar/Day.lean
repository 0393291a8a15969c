namespace CatalogQuery

namespace Calendar

def isLeapYear (year : Int) : Bool := year % 4 == 0 && (year % 100 != 0 || year % 400 == 0)

def daysInMonth (year : Int) (month : Nat) : Nat :=
  if month = 2 then if isLeapYear year then 29 else 28
  else if month = 4 ∨ month = 6 ∨ month = 9 ∨ month = 11 then 30 else 31

theorem daysInMonth_pos (year : Int) (month : Nat) : 1 ≤ daysInMonth year month := by
  unfold daysInMonth
  repeat' split
  all_goals omega

end Calendar

open Calendar

structure Day where
  year : Int
  month : Nat
  day : Nat
  month_pos : 1 ≤ month
  month_le : month ≤ 12
  day_pos : 1 ≤ day
  day_le : day ≤ daysInMonth year month
  deriving DecidableEq, Repr

namespace Day

def ofFields? (year : Int) (month day : Nat) : Option Day :=
  if h : 1 ≤ month ∧ month ≤ 12 ∧ 1 ≤ day ∧ day ≤ daysInMonth year month then
    some ⟨year, month, day, h.1, h.2.1, h.2.2.1, h.2.2.2⟩
  else none

def firstOf (year : Int) (month : Nat) (pos : 1 ≤ month) (le : month ≤ 12) : Day :=
  ⟨year, month, 1, pos, le, Nat.le_refl _, daysInMonth_pos _ _⟩

def lastOf (year : Int) (month : Nat) (pos : 1 ≤ month) (le : month ≤ 12) : Day :=
  ⟨year, month, daysInMonth year month, pos, le, daysInMonth_pos _ _, Nat.le_refl _⟩

def next (d : Day) : Day :=
  if h : d.day < daysInMonth d.year d.month then
    ⟨d.year, d.month, d.day + 1, d.month_pos, d.month_le, by omega, h⟩
  else if h : d.month < 12 then firstOf d.year (d.month + 1) (by omega) h
  else firstOf (d.year + 1) 1 (by decide) (by decide)

def previous (d : Day) : Day :=
  if h : 1 < d.day then
    ⟨d.year, d.month, d.day - 1, d.month_pos, d.month_le, by omega,
      Nat.le_trans (Nat.sub_le _ _) d.day_le⟩
  else if h : 1 < d.month then
    lastOf d.year (d.month - 1) (by omega) (Nat.le_trans (Nat.sub_le _ _) d.month_le)
  else lastOf (d.year - 1) 12 (by decide) (by decide)

/-- A number that grows from each day to the next. -/
def rank (d : Day) : Int := (d.year * 16 + d.month) * 32 + d.day

/-- Whether a literal may name the day. -/
def Supported (d : Day) : Prop := -262143 ≤ d.year ∧ d.year ≤ 262142

instance (d : Day) : Decidable d.Supported := inferInstanceAs (Decidable (_ ∧ _))

end Day

/-- A day that a literal may name. -/
structure Date where
  day : Day
  supported : day.Supported
  deriving DecidableEq

namespace Date

def ofDay? (day : Day) : Option Date := if h : day.Supported then some ⟨day, h⟩ else none

def ofFields? (year : Int) (month day : Nat) : Option Date :=
  (Day.ofFields? year month day).bind ofDay?

end Date
end CatalogQuery
