import CatalogQuery.Calendar.Moment
import CatalogQuery.Text.Blank
import CatalogQuery.Text.Digits

/-!
# Reading dates and times

Dates, times and date-times are read by a layout: a list of fields, marks and
blanks. A field is a number with blanks before it, checked against its range as
soon as it is read; a mark is one character that has to stand there. Two sets
of layouts are used, a strict one for literals and one with more blanks for
their JSON form.

Zoned date-times follow RFC 3339. Literals have its fixed widths; the JSON form
reads the fields like any other layout.
-/

namespace CatalogQuery.Calendar

/-- Why a text is no date or time. -/
inductive Fault
  | premature
  | invalid
  | outOfRange
  | trailing
  deriving DecidableEq, Repr

def Fault.message : Fault → String
  | .premature => "premature end of input"
  | .invalid => "input contains invalid characters"
  | .outOfRange => "input is out of range"
  | .trailing => "trailing input"

/-- A value, or the fault that its absence is. -/
def orFault {α : Type} (fault : Fault) : Option α → Except Fault α
  | some value => .ok value
  | none => .error fault

/-- The numbers a layout reads. -/
inductive Field
  | year
  | month
  | day
  | hour
  | minute
  | second
  deriving DecidableEq, Repr

/-- One part of a layout. -/
inductive Part
  | field (field : Field)
  /-- An optional point with digits of a second. -/
  | fraction
  | mark (c : Char)
  | blanks
  deriving DecidableEq, Repr

/-- The numbers that have been read; those a layout leaves out are zero. -/
structure Fields where
  year : Int
  month : Nat
  day : Nat
  hour : Nat
  minute : Nat
  second : Nat
  nano : Nat

namespace Fields

def zero : Fields := ⟨0, 0, 0, 0, 0, 0, 0⟩

def date (f : Fields) : Except Fault Date :=
  orFault .outOfRange (Date.ofFields? f.year f.month f.day)

def time (f : Fields) : Except Fault Time :=
  orFault .outOfRange (Time.ofFields? f.hour f.minute f.second f.nano)

def dateTime (f : Fields) : Except Fault DateTime := do
  let date ← f.date
  let time ← f.time
  return ⟨date, time⟩

end Fields

/-- At least one digit and at most `limit` of them. -/
def readNumber (limit : Nat) (text : List Char) : Except Fault (Nat × List Char) :=
  match Text.takeDigits limit text with
  | ([], []) => .error .premature
  | ([], _) => .error .invalid
  | (digits, rest) => .ok (Text.numberOf digits, rest)

/-- A number that has to lie in a range. -/
def readWithin (low high : Nat) (text : List Char) : Except Fault (Nat × List Char) := do
  let (n, rest) ← readNumber 2 text
  if low ≤ n ∧ n ≤ high then return (n, rest) else throw .outOfRange

/-- A year has up to four digits, or any number of them after a sign. More than
32 bits are out of range at once. -/
def readYear : List Char → Except Fault (Int × List Char)
  | '-' :: text => do
    let (n, rest) ← readNumber text.length text
    if n ≤ 2147483648 then return (-n, rest) else throw .outOfRange
  | '+' :: text => do
    let (n, rest) ← readNumber text.length text
    if n < 2147483648 then return (n, rest) else throw .outOfRange
  | text => do
    let (n, rest) ← readNumber 4 text
    return (n, rest)

/-- Reads the number of a field, after blanks. -/
def readField (field : Field) (fields : Fields) (text : List Char) :
    Except Fault (Fields × List Char) := do
  let text := Text.skipBlanks text
  match field with
  | .year => let (n, rest) ← readYear text; return ({ fields with year := n }, rest)
  | .month => let (n, rest) ← readWithin 1 12 text; return ({ fields with month := n }, rest)
  | .day => let (n, rest) ← readWithin 1 31 text; return ({ fields with day := n }, rest)
  | .hour => let (n, rest) ← readWithin 0 23 text; return ({ fields with hour := n }, rest)
  | .minute => let (n, rest) ← readWithin 0 59 text; return ({ fields with minute := n }, rest)
  | .second => let (n, rest) ← readWithin 0 60 text; return ({ fields with second := n }, rest)

/-- Digits of a second as nanoseconds; those after the ninth are passed over. -/
def readNanos (text : List Char) : Except Fault (Nat × List Char) := do
  let (n, rest) ← readNumber 9 text
  let count := text.length - rest.length
  return (n * Nat.pow 10 (9 - count), rest.dropWhile Char.isDigit)

def readMark (c : Char) : List Char → Except Fault (List Char)
  | [] => .error .premature
  | d :: rest => if d = c then .ok rest else .error .invalid

def readPart (part : Part) (fields : Fields) (text : List Char) :
    Except Fault (Fields × List Char) :=
  match part with
  | .field field => readField field fields text
  | .fraction =>
    match text with
    | '.' :: rest => (readNanos rest).map fun (n, rest) => ({ fields with nano := n }, rest)
    | _ => .ok (fields, text)
  | .mark c => (readMark c text).map fun rest => (fields, rest)
  | .blanks => .ok (fields, Text.skipBlanks text)

def readParts : List Part → Fields → List Char → Except Fault (Fields × List Char)
  | [], fields, text => .ok (fields, text)
  | part :: parts, fields, text => do
    let (fields, rest) ← readPart part fields text
    readParts parts fields rest

def atEnd (text : List Char) : Except Fault Unit :=
  if text.isEmpty then .ok () else .error .trailing

def readAll (layout : List Part) (text : List Char) : Except Fault Fields := do
  let (fields, rest) ← readParts layout .zero text
  atEnd rest
  return fields

/-! ### Literals -/

/-- `2021-01-31` -/
def dateLayout : List Part :=
  [.field .year, .mark '-', .field .month, .mark '-', .field .day]

/-- `13:45:00.5` -/
def timeLayout : List Part :=
  [.field .hour, .mark ':', .field .minute, .mark ':', .field .second, .fraction]

/-- `2021-01-31T13:45:00.5` -/
def dateTimeLayout : List Part := dateLayout ++ .mark 'T' :: timeLayout

def readDate (text : List Char) : Except Fault Date := do (← readAll dateLayout text).date

def readTime (text : List Char) : Except Fault Time := do (← readAll timeLayout text).time

def readDateTime (text : List Char) : Except Fault DateTime := do
  (← readAll dateTimeLayout text).dateTime

def byteLength : List Char → Nat
  | [] => 0
  | c :: rest => c.utf8Size + byteLength rest

def readFixed (count : Nat) (text : List Char) : Except Fault (Nat × List Char) :=
  let digits := text.take count
  if digits.length = count ∧ digits.all Char.isDigit then
    .ok (Text.numberOf digits, text.drop count)
  else .error .invalid

/-- A character that has to stand there; a missing one is invalid as well. -/
def readFixedMark (c : Char) (text : List Char) : Except Fault (List Char) :=
  orFault .invalid (readMark c text).toOption

/-- Two digits of an offset. With less than two bytes left they are missing. -/
def readOffsetPair (text : List Char) : Except Fault (Nat × List Char) :=
  if byteLength text < 2 then .error .premature else readFixed 2 text

/-- The digits of an offset after its sign; `separate` reads what stands between
hours and minutes. -/
def readOffsetDigits (separate : List Char → Except Fault (List Char)) (text : List Char) :
    Except Fault (Nat × List Char) := do
  let (hours, rest) ← readOffsetPair text
  let rest ← separate rest
  let (minutes, rest) ← readOffsetPair rest
  if minutes < 60 then return (hours * 3600 + minutes * 60, rest) else throw .outOfRange

/-- `Z`, or a sign with hours and minutes. The sign may be a minus sign proper. -/
def readOffset (separate : List Char → Except Fault (List Char)) :
    List Char → Except Fault (Int × List Char)
  | [] => .error .premature
  | c :: rest =>
    if c = 'Z' ∨ c = 'z' then .ok (0, rest)
    else if c = '+' then
      (readOffsetDigits separate rest).map fun (n, rest) => (n, rest)
    else if c = '-' ∨ c = '\u2212' then
      (readOffsetDigits separate rest).map fun (n, rest) => (-(n : Int), rest)
    else .error .invalid

/-- The zoned date-time at which a clock at an offset shows a date-time. -/
def zonedOf (t : DateTime) (seconds : Int) : Except Fault ZonedDateTime := do
  let offset ← orFault .outOfRange (Offset.ofSeconds? seconds)
  orFault .outOfRange (ZonedDateTime.ofLocal? t offset)

/-- The characters that may stand between date and time. -/
def isDateTimeMark (c : Char) : Bool := c == 'T' || c == 't' || c == ' '

/-- The mark between date and time, at a place where a text may end. -/
def readDateTimeMark : List Char → Except Fault (List Char)
  | [] => .error .premature
  | c :: rest => if isDateTimeMark c then .ok rest else .error .invalid

/-- A point with digits of a second, if there is one. -/
def readFraction : List Char → Except Fault (Nat × List Char)
  | '.' :: digits => readNanos digits
  | other => .ok (0, other)

def readFixedDate (text : List Char) : Except Fault (Date × List Char) := do
  let (year, rest) ← readFixed 4 text
  let rest ← readFixedMark '-' rest
  let (month, rest) ← readFixed 2 rest
  let rest ← readFixedMark '-' rest
  let (day, rest) ← readFixed 2 rest
  let date ← orFault .outOfRange (Date.ofFields? year month day)
  return (date, rest)

/-- A time of fixed width, but for the digits of its fraction. -/
def readFixedTime (text : List Char) : Except Fault (Time × List Char) := do
  let (hour, rest) ← readFixed 2 text
  let rest ← readFixedMark ':' rest
  let (minute, rest) ← readFixed 2 rest
  let rest ← readFixedMark ':' rest
  let (second, rest) ← readFixed 2 rest
  let (nano, rest) ← readFraction rest
  let time ← orFault .outOfRange (Time.ofFields? hour minute second nano)
  return (time, rest)

def readZoned (text : List Char) : Except Fault ZonedDateTime :=
  if byteLength text < 19 then .error .premature
  else do
    let (date, rest) ← readFixedDate text
    let rest ← orFault .invalid (readDateTimeMark rest).toOption
    let (time, rest) ← readFixedTime rest
    let (seconds, rest) ← readOffset (readMark ':') rest
    atEnd rest
    zonedOf ⟨date, time⟩ seconds

/-! ### The JSON form -/

/-- A date with blanks before each mark. -/
def jsonDateLayout : List Part :=
  [.field .year, .blanks, .mark '-', .field .month, .blanks, .mark '-', .field .day]

def jsonMinuteLayout : List Part := [.field .hour, .blanks, .mark ':', .field .minute]

def jsonSecondLayout : List Part :=
  [.blanks, .mark ':', .field .second, .fraction, .blanks]

def jsonTimeLayout : List Part := jsonMinuteLayout ++ jsonSecondLayout

def readJsonDate (text : List Char) : Except Fault Date := do
  (← readAll (jsonDateLayout ++ [.blanks]) text).date

/-- The time of a JSON text; its seconds may be missing. -/
def readJsonTime (text : List Char) : Except Fault Time := do
  let (fields, rest) ← readParts jsonMinuteLayout .zero text
  let (fields, rest) := match readParts jsonSecondLayout fields rest with
    | .ok more => more
    | .error _ => (fields, rest)
  atEnd (Text.skipBlanks rest)
  fields.time

def readJsonDateTime (text : List Char) : Except Fault DateTime := do
  (← readAll (jsonDateLayout ++ .blanks :: .mark 'T' :: jsonTimeLayout) text).dateTime

/-- What may stand between the hours and minutes of an offset. -/
def skipOffsetSeparators (text : List Char) : List Char :=
  text.dropWhile fun c => c == ':' || Text.isBlank c

/-- `UTC` in any case, or an offset. -/
def readJsonOffset (text : List Char) : Except Fault (Int × List Char) :=
  if (text.take 3).map Char.toUpper = ['U', 'T', 'C'] then .ok (0, text.drop 3)
  else readOffset (fun rest => .ok (skipOffsetSeparators rest)) text

/-- The zoned date-time of a JSON text. No blank may stand before the mark between
date and time, for a blank is such a mark itself. -/
def readJsonZoned (text : List Char) : Except Fault ZonedDateTime := do
  let (fields, rest) ← readParts jsonDateLayout .zero text
  let rest ← readDateTimeMark rest
  let (fields, rest) ← readParts jsonTimeLayout fields rest
  let (seconds, rest) ← readJsonOffset rest
  atEnd (Text.skipBlanks rest)
  zonedOf (← fields.dateTime) seconds

end CatalogQuery.Calendar
