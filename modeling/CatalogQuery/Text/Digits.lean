namespace CatalogQuery.Text

def digit? (c : Char) : Option Nat := if c.isDigit then some (c.toNat - '0'.toNat) else none

/-- The digits of a number, without leading zeros. -/
def digitsOf (n : Nat) : List Char := Nat.toDigits 10 n

def numberOf (digits : List Char) : Nat := Nat.ofDigitChars 10 digits 0

/-- The digits of a number, filled with leading zeros to at least `width` places. -/
def padded (width n : Nat) : List Char :=
  let digits := digitsOf n
  List.replicate (width - digits.length) '0' ++ digits

def integerText (n : Int) : List Char :=
  if n < 0 then '-' :: digitsOf n.natAbs else digitsOf n.natAbs

/-- The digits a text starts with, at most `limit` of them, and the rest. -/
def takeDigits (limit : Nat) (text : List Char) : List Char × List Char :=
  let digits := (text.take limit).takeWhile Char.isDigit
  (digits, text.drop digits.length)

theorem numberOf_digitsOf (n : Nat) : numberOf (digitsOf n) = n :=
  Nat.ofDigitChars_toDigits (by decide) (by decide)

/-- Why a text is no whole number of a bounded size. -/
inductive IntegerFault
  | empty
  | invalidDigit
  | tooLarge
  | tooSmall
  deriving DecidableEq, Repr

def IntegerFault.message : IntegerFault → String
  | .empty => "cannot parse integer from empty string"
  | .invalidDigit => "invalid digit found in string"
  | .tooLarge => "number too large to fit in target type"
  | .tooSmall => "number too small to fit in target type"

/-- Adds digits to `value`, refusing the first that is no digit or passes `limit`. -/
def readBounded (limit : Nat) (overflow : IntegerFault) :
    List Char → Nat → Except IntegerFault Nat
  | [], value => .ok value
  | c :: rest, value =>
    match digit? c with
    | none => .error .invalidDigit
    | some d =>
      if 10 * value + d ≤ limit then readBounded limit overflow rest (10 * value + d)
      else .error overflow

def readNatural (limit : Nat) (overflow : IntegerFault) (text : List Char) :
    Except IntegerFault Nat :=
  if text.isEmpty then .error .invalidDigit else readBounded limit overflow text 0

/-- A whole number of 64 bits with an optional sign. -/
def readInt64 : List Char → Except IntegerFault Int64
  | [] => .error .empty
  | '-' :: digits => (readNatural 9223372036854775808 .tooSmall digits).map fun n => Int64.ofInt (-n)
  | '+' :: digits => (readNatural 9223372036854775807 .tooLarge digits).map fun n => Int64.ofInt n
  | digits => (readNatural 9223372036854775807 .tooLarge digits).map fun n => Int64.ofInt n

end CatalogQuery.Text
