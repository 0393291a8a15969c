import CatalogQuery.Calendar.Moment
import CatalogQuery.Text.Digits

/-!
# Writing dates and times

A year has at least four digits, and a sign unless it lies between 0 and 9999.
A fraction has three, six or nine digits, as few as are exact, and is left out
if it is zero. A leap second is second 60.

Offsets are written in hours and minutes. A zoned date-time whose offset has odd
seconds has two forms:

* `ZonedDateTime.queryText` drops the odd seconds from the offset and moves the
  local time along, so the instant is kept;
* `ZonedDateTime.jsonText` rounds the offset and leaves the local time alone.
-/

namespace CatalogQuery

namespace Calendar

/-- A year, with a sign unless it has four digits. -/
def yearText (year : Int) : List Char :=
  if year < 0 then '-' :: Text.padded 4 year.natAbs
  else if year < 10000 then Text.padded 4 year.natAbs
  else '+' :: Text.padded 4 year.natAbs

/-- Digits of a second, as few groups of three as are exact. -/
def fractionText (nano : Nat) : List Char :=
  if nano = 0 then []
  else if nano % 1000000 = 0 then '.' :: Text.padded 3 (nano / 1000000)
  else if nano % 1000 = 0 then '.' :: Text.padded 6 (nano / 1000)
  else '.' :: Text.padded 9 nano

/-- Hours, minutes, seconds and fraction. -/
def clockText (second nano : Nat) : List Char :=
  let leap := nano / nanosPerSecond
  Text.padded 2 (second / 3600) ++ ':' :: Text.padded 2 (second / 60 % 60)
    ++ ':' :: Text.padded 2 (second % 60 + leap) ++ fractionText (nano % nanosPerSecond)

/-- A sign, hours and minutes. -/
def minutesText (negative : Bool) (minutes : Nat) : List Char :=
  (if negative then '-' else '+') :: Text.padded 2 (minutes / 60)
    ++ ':' :: Text.padded 2 (minutes % 60)

end Calendar

open Calendar

def Day.text (d : Day) : List Char :=
  yearText d.year ++ '-' :: Text.padded 2 d.month ++ '-' :: Text.padded 2 d.day

def Date.text (d : Date) : List Char := d.day.text

def Time.text (t : Time) : List Char := clockText t.second t.nano

def LocalTime.text (t : LocalTime) : List Char := t.day.text ++ 'T' :: clockText t.second t.nano

def DateTime.text (t : DateTime) : List Char := t.toLocal.text

namespace Offset

/-- Hours and minutes of an offset, without its odd seconds. -/
def text (o : Offset) : List Char :=
  minutesText (o.wholeMinutes < 0) (o.wholeMinutes.natAbs / 60)

/-- An offset rounded to minutes, half a minute away from zero; `Z` is zero. -/
def jsonText (o : Offset) : List Char :=
  if o.seconds = 0 then ['Z'] else minutesText (o.seconds < 0) ((o.seconds.natAbs + 30) / 60)

/-- An offset with its odd seconds, if it has any. -/
def exactText (o : Offset) : List Char :=
  let odd := o.seconds.natAbs % 60
  let minutes := minutesText (o.seconds < 0) (o.seconds.natAbs / 60)
  if odd = 0 then minutes else minutes ++ ':' :: Text.padded 2 odd

end Offset

namespace ZonedDateTime

def queryText (z : ZonedDateTime) : List Char :=
  (z.utc.toLocal.shift z.offset.wholeMinutes).text ++ z.offset.text

def jsonText (z : ZonedDateTime) : List Char := z.localTime.text ++ z.offset.jsonText

def exactText (z : ZonedDateTime) : List Char := z.localTime.text ++ z.offset.exactText

end ZonedDateTime
end CatalogQuery
