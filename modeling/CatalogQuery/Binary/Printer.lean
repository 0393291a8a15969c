import CatalogQuery.Binary.Shortest

/-!
# Writing binary numbers

Both forms write the shortest digits that read back:

* `plainText`: never with a power of ten, and without a point if it is whole; of
  two equally near decimals the greater;
* `jsonText`: with a point, or with a power of ten from `10 ^ 16` up and below
  `10 ^ -5`; of two equally near decimals the even one.
-/

namespace CatalogQuery.Binary

namespace DecimalForm

def digits (d : DecimalForm) : List Char := Text.digitsOf d.coefficient

/-- The exponent of the first digit. -/
def leading (d : DecimalForm) : Int := d.digits.length - 1 + d.power

/-- Digits without a power of ten. -/
def plain (d : DecimalForm) : List Char :=
  if 0 ≤ d.power then d.digits ++ List.replicate d.power.toNat '0'
  else
    let places := (-d.power).toNat
    let digits := Text.padded (places + 1) d.coefficient
    let whole := digits.length - places
    digits.take whole ++ '.' :: digits.drop whole

/-- One digit, the others after a point, and the power of ten of the first. -/
def scientific (d : DecimalForm) : List Char :=
  let fraction := d.digits.drop 1
  let mantissa := if fraction.isEmpty then d.digits else d.digits.take 1 ++ '.' :: fraction
  let power := d.leading
  let sign := if power < 0 then '-' else '+'
  mantissa ++ 'e' :: sign :: Text.digitsOf power.natAbs

/-- The exponents of the first digit that are written without a power of ten. -/
def isPositional (d : DecimalForm) : Bool := -5 ≤ d.leading && d.leading < 16

/-- Digits with a point, or with a power of ten. -/
def pointed (d : DecimalForm) : List Char :=
  if d.isPositional then
    if 0 ≤ d.power then d.plain ++ ['.', '0'] else d.plain
  else d.scientific

end DecimalForm

/-- A text with a `-` before it if the number is negative. -/
def signed (negative : Bool) (text : List Char) : List Char :=
  if negative then '-' :: text else text

def Finite.plainText {f : BinaryFormat} (x : Finite f) : List Char :=
  signed x.negative (x.shortest .greater).plain

def Finite.jsonText {f : BinaryFormat} (x : Finite f) : List Char :=
  signed x.negative (x.shortest .even).pointed

def plainText {f : BinaryFormat} : Binary f → List Char
  | .nan => ['N', 'a', 'N']
  | .infinite negative => signed negative ['i', 'n', 'f']
  | .finite x => x.plainText

end CatalogQuery.Binary
