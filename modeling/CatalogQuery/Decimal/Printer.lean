import CatalogQuery.Decimal.Basic
import CatalogQuery.Text.Digits

namespace CatalogQuery.Decimal

/-- A number of `scale` places, without sign. -/
def magnitudeText (coefficient scale : Nat) : List Char :=
  if scale = 0 then Text.digitsOf coefficient
  else
    let digits := Text.padded (scale + 1) coefficient
    let whole := digits.length - scale
    digits.take whole ++ '.' :: digits.drop whole

/-- A decimal with its places; without places there is no point. -/
def text (d : Decimal) : List Char :=
  let magnitude := magnitudeText d.coefficient d.scale
  if d.negative then '-' :: magnitude else magnitude

/-- A decimal as query text, where the point is always written. -/
def queryText (d : Decimal) : List Char :=
  if d.scale = 0 then d.text ++ ['.', '0'] else d.text

end CatalogQuery.Decimal
