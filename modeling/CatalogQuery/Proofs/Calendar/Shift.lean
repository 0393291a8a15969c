import CatalogQuery.Calendar.Moment
import Mathlib.Tactic.Ring

namespace CatalogQuery

namespace Day

theorem ext {a b : Day} (hy : a.year = b.year) (hm : a.month = b.month) (hd : a.day = b.day) :
    a = b := by
  cases a
  cases b
  simp_all

theorem previous_next (d : Day) : d.next.previous = d := by
  have hpos := d.day_pos
  have hle := d.day_le
  have hmpos := d.month_pos
  have hmle := d.month_le
  unfold next
  by_cases h₁ : d.day < Calendar.daysInMonth d.year d.month
  · have back : 1 < d.day + 1 := by omega
    rw [dif_pos h₁, previous, dif_pos back]
    exact ext rfl rfl (Nat.add_sub_cancel _ _)
  · have last : d.day = Calendar.daysInMonth d.year d.month := by omega
    rw [dif_neg h₁]
    by_cases h₂ : d.month < 12
    · have back : 1 < d.month + 1 := by omega
      rw [dif_pos h₂, firstOf, previous, dif_neg (Nat.lt_irrefl 1), dif_pos back]
      exact ext rfl (Nat.add_sub_cancel _ _) (by simp [lastOf, last])
    · have december : d.month = 12 := by omega
      rw [dif_neg h₂, firstOf, previous, dif_neg (Nat.lt_irrefl 1), dif_neg (Nat.lt_irrefl 1)]
      exact ext (Int.add_sub_cancel _ _) december.symm (by simp [lastOf, last, december])

theorem next_previous (d : Day) : d.previous.next = d := by
  have hpos := d.day_pos
  have hle := d.day_le
  have hmpos := d.month_pos
  have hmle := d.month_le
  unfold previous
  by_cases h₁ : 1 < d.day
  · have room : d.day - 1 < Calendar.daysInMonth d.year d.month := by omega
    rw [dif_pos h₁, next, dif_pos room]
    exact ext rfl rfl (Nat.sub_add_cancel (by omega))
  · have first : d.day = 1 := by omega
    rw [dif_neg h₁]
    by_cases h₂ : 1 < d.month
    · have room : d.month - 1 < 12 := by omega
      rw [dif_pos h₂, lastOf, next, dif_neg (Nat.lt_irrefl _), dif_pos room]
      exact ext rfl (Nat.sub_add_cancel (by omega)) first.symm
    · have january : d.month = 1 := by omega
      rw [dif_neg h₂, lastOf, next, dif_neg (Nat.lt_irrefl _), dif_neg (by simp)]
      exact ext (Int.sub_add_cancel _ _) january.symm first.symm

end Day

namespace LocalTime

/-- A clock that is set and then set back shows what it showed. -/
theorem shift_neg {t : LocalTime} (ht : t.second < Calendar.secondsPerDay) {seconds : Int}
    (lower : -(Calendar.secondsPerDay : Int) < seconds)
    (upper : seconds < Calendar.secondsPerDay) : (t.shift seconds).shift (-seconds) = t := by
  obtain ⟨day, second, nano⟩ := t
  simp only [Calendar.secondsPerDay] at ht lower upper
  simp only [shift, Calendar.secondsPerDay]
  by_cases early : (second : Int) + seconds < 0
  · have late : ¬ (((second : Int) + seconds + (86400 : Nat)).toNat : Int) + -seconds < 0 := by
      omega
    have wraps : ((86400 : Nat) : Int) ≤
        (((second : Int) + seconds + (86400 : Nat)).toNat : Int) + -seconds := by omega
    simp only [early, if_true, late, if_false, wraps, Day.next_previous, mk.injEq, true_and,
      and_true]
    omega
  · by_cases late : ((86400 : Nat) : Int) ≤ (second : Int) + seconds
    · have wraps : (((second : Int) + seconds - (86400 : Nat)).toNat : Int) + -seconds < 0 := by
        omega
      simp only [early, if_false, late, if_true, wraps, Day.previous_next, mk.injEq, true_and,
        and_true]
      omega
    · have low : ¬ (((second : Int) + seconds).toNat : Int) + -seconds < 0 := by omega
      have high : ¬ ((86400 : Nat) : Int) ≤
          (((second : Int) + seconds).toNat : Int) + -seconds := by omega
      simp only [early, if_false, late, low, high, mk.injEq, true_and, and_true]
      omega

theorem shift_second (t : LocalTime) (seconds : Int) :
    (t.shift seconds).second =
      if (t.second : Int) + seconds < 0 then (t.second + seconds + Calendar.secondsPerDay).toNat
      else if (Calendar.secondsPerDay : Int) ≤ t.second + seconds then
        (t.second + seconds - Calendar.secondsPerDay).toNat
      else (t.second + seconds).toNat := by
  simp only [shift]
  split
  · rfl
  · split <;> rfl

theorem shift_second_lt {t : LocalTime} (ht : t.second < Calendar.secondsPerDay) {seconds : Int}
    (lower : -(Calendar.secondsPerDay : Int) < seconds)
    (upper : seconds < Calendar.secondsPerDay) :
    (t.shift seconds).second < Calendar.secondsPerDay := by
  have day : Calendar.secondsPerDay = 86400 := rfl
  rw [shift_second]
  split
  · omega
  · split <;> omega

/-- Whole minutes do not touch the second of the minute. -/
theorem shift_second_mod {t : LocalTime} (ht : t.second < Calendar.secondsPerDay) {minutes : Int}
    (lower : -(Calendar.secondsPerDay : Int) < minutes * 60)
    (upper : minutes * 60 < Calendar.secondsPerDay) :
    (t.shift (minutes * 60)).second % 60 = t.second % 60 := by
  have day : Calendar.secondsPerDay = 86400 := rfl
  rw [shift_second]
  split
  · omega
  · split <;> omega

@[simp] theorem shift_nano (t : LocalTime) (seconds : Int) :
    (t.shift seconds).nano = t.nano := by
  simp only [shift]
  split_ifs <;> rfl

end LocalTime

namespace Offset

/-- Dropping the odd seconds leaves whole minutes on the same side of zero. -/
theorem wholeMinutes_eq (o : Offset) :
    o.wholeMinutes = if o.seconds < 0 then -((o.seconds.natAbs / 60 * 60 : Nat) : Int)
      else ((o.seconds.natAbs / 60 * 60 : Nat) : Int) := by
  unfold wholeMinutes
  by_cases h : o.seconds < 0
  · obtain ⟨n, hn⟩ : ∃ n : Nat, o.seconds = -(n : Int) := ⟨o.seconds.natAbs, by omega⟩
    rw [if_pos h, hn, Int.neg_tdiv, Int.natAbs_neg, Int.natAbs_natCast,
      Int.tdiv_eq_ediv_of_nonneg (Int.natCast_nonneg n)]
    push_cast
    ring
  · obtain ⟨n, hn⟩ : ∃ n : Nat, o.seconds = (n : Int) := ⟨o.seconds.natAbs, by omega⟩
    rw [if_neg h, hn, Int.natAbs_natCast, Int.tdiv_eq_ediv_of_nonneg (Int.natCast_nonneg n)]
    push_cast
    rfl

theorem wholeMinutes_lower (o : Offset) : -(Calendar.secondsPerDay : Int) < o.wholeMinutes := by
  have lower := o.lower
  have upper := o.upper
  rw [wholeMinutes_eq]
  split <;> omega

theorem wholeMinutes_upper (o : Offset) : o.wholeMinutes < Calendar.secondsPerDay := by
  have lower := o.lower
  have upper := o.upper
  rw [wholeMinutes_eq]
  split <;> omega

theorem minutes_lt (o : Offset) : o.wholeMinutes.natAbs / 60 < 1440 := by
  have lower := o.wholeMinutes_lower
  have upper := o.wholeMinutes_upper
  simp only [Calendar.secondsPerDay] at lower upper
  omega

theorem wholeMinutes_mod (o : Offset) : o.wholeMinutes % 60 = 0 := by
  rw [wholeMinutes_eq]
  split <;> omega

/-- The offset without its odd seconds. -/
def truncated (o : Offset) : Offset := ⟨o.wholeMinutes, o.wholeMinutes_lower, o.wholeMinutes_upper⟩

theorem wholeMinutes_of_dvd {o : Offset} (h : o.seconds % 60 = 0) : o.wholeMinutes = o.seconds := by
  rw [wholeMinutes_eq]
  split <;> omega

end Offset
end CatalogQuery
