namespace CatalogQuery.Text

/-- Whether a character has the property `White_Space`. -/
def isBlank (c : Char) : Bool :=
  let n := c.toNat
  (0x9 ≤ n && n ≤ 0xD) || n == 0x20 || n == 0x85 || n == 0xA0 || n == 0x1680
    || (0x2000 ≤ n && n ≤ 0x200A) || n == 0x2028 || n == 0x2029 || n == 0x202F
    || n == 0x205F || n == 0x3000

def skipBlanks (text : List Char) : List Char := text.dropWhile isBlank

def trim (text : List Char) : List Char := (skipBlanks (skipBlanks text).reverse).reverse

def leadingBlanks (text : List Char) : Nat := (text.takeWhile isBlank).length

theorem length_skipBlanks_le (text : List Char) : (skipBlanks text).length ≤ text.length :=
  (List.dropWhile_sublist _).length_le

/-- The blanks that were skipped and what is left make up the text. -/
theorem takeWhile_append_skipBlanks (text : List Char) :
    text.takeWhile isBlank ++ skipBlanks text = text :=
  List.takeWhile_append_dropWhile

end CatalogQuery.Text
