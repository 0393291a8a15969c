import CatalogQuery.Calendar.Day

/-!
# Times, date-times and zoned date-times

A time of day counts whole seconds since midnight and the nanoseconds after
them. A leap second is a further thousand million nanoseconds in the last
second of a minute.

A zoned date-time is an instant together with the offset of the local clock
from universal time. Instants are kept as date-times of universal time, so that
two zoned date-times name the same instant exactly if these agree.
-/

namespace CatalogQuery

namespace Calendar

def secondsPerDay : Nat := 86400

def nanosPerSecond : Nat := 1000000000

end Calendar

open Calendar

/-- A time of day. In a leap second `nano` is a second or more. -/
structure Time where
  second : Nat
  nano : Nat
  second_lt : second < secondsPerDay
  nano_lt : nano < 2 * nanosPerSecond
  leap_last : nanosPerSecond ≤ nano → second % 60 = 59
  deriving DecidableEq, Repr

namespace Time

/-- The time a number of seconds and nanoseconds after midnight. -/
def ofSeconds? (second nano : Nat) : Option Time :=
  if h : second < secondsPerDay ∧ nano < 2 * nanosPerSecond
      ∧ (nanosPerSecond ≤ nano → second % 60 = 59) then
    some ⟨second, nano, h.1, h.2.1, h.2.2⟩
  else none

/-- The time with this hour, minute, second and fraction. Second 60 is a leap
second. -/
def ofFields? (hour minute second nano : Nat) : Option Time :=
  if hour < 24 ∧ minute < 60 ∧ second ≤ 60 ∧ nano < nanosPerSecond then
    if second = 60 then ofSeconds? (hour * 3600 + minute * 60 + 59) (nanosPerSecond + nano)
    else ofSeconds? (hour * 3600 + minute * 60 + second) nano
  else none

end Time

structure DateTime where
  date : Date
  time : Time
  deriving DecidableEq

/-- What a calendar and a clock show. A leap second of universal time may stand
in any second of a local clock. -/
structure LocalTime where
  day : Day
  second : Nat
  nano : Nat
  deriving DecidableEq

namespace LocalTime

/-- The reading of a clock that goes `seconds` ahead; less than a day. -/
def shift (t : LocalTime) (seconds : Int) : LocalTime :=
  let second := t.second + seconds
  if second < 0 then ⟨t.day.previous, (second + secondsPerDay).toNat, t.nano⟩
  else if secondsPerDay ≤ second then ⟨t.day.next, (second - secondsPerDay).toNat, t.nano⟩
  else ⟨t.day, second.toNat, t.nano⟩

def toDateTime? (t : LocalTime) : Option DateTime :=
  match Date.ofDay? t.day, Time.ofSeconds? t.second t.nano with
  | some date, some time => some ⟨date, time⟩
  | _, _ => none

end LocalTime

namespace DateTime

/-- The reading of a calendar and a clock at a date-time. -/
def toLocal (t : DateTime) : LocalTime := ⟨t.date.day, t.time.second, t.time.nano⟩

/-- A number that grows with time. -/
def rank (t : DateTime) : Int :=
  (t.date.day.rank * secondsPerDay + t.time.second) * (2 * nanosPerSecond) + t.time.nano

end DateTime

/-- How many seconds a local clock is ahead of universal time; less than a day. -/
structure Offset where
  seconds : Int
  lower : -(secondsPerDay : Int) < seconds
  upper : seconds < secondsPerDay
  deriving DecidableEq, Repr

namespace Offset

def ofSeconds? (seconds : Int) : Option Offset :=
  if h : -(secondsPerDay : Int) < seconds ∧ seconds < secondsPerDay then
    some ⟨seconds, h.1, h.2⟩
  else none

/-- The seconds of an offset without its odd seconds, toward zero. -/
def wholeMinutes (o : Offset) : Int := o.seconds.tdiv 60 * 60

end Offset

/-- An instant and the offset of the local clock. -/
structure ZonedDateTime where
  utc : DateTime
  offset : Offset
  deriving DecidableEq

namespace ZonedDateTime

def sameInstant (a b : ZonedDateTime) : Bool := a.utc == b.utc

/-- Zoned date-times are ordered by their instants. -/
instance instLE : LE ZonedDateTime := ⟨fun a b => a.utc.rank ≤ b.utc.rank⟩

instance (a b : ZonedDateTime) : Decidable (a ≤ b) :=
  inferInstanceAs (Decidable (a.utc.rank ≤ b.utc.rank))

/-- What the local calendar and clock show. -/
def localTime (z : ZonedDateTime) : LocalTime := z.utc.toLocal.shift z.offset.seconds

/-- The instant at which a local clock shows a date-time, if a literal may name it. -/
def ofLocal? (t : DateTime) (offset : Offset) : Option ZonedDateTime :=
  (t.toLocal.shift (-offset.seconds)).toDateTime?.map (⟨·, offset⟩)

def withOffset (z : ZonedDateTime) (offset : Offset) : ZonedDateTime := ⟨z.utc, offset⟩

end ZonedDateTime
end CatalogQuery
