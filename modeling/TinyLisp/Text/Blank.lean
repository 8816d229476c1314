/-!
# White space

The class of white space characters and the removal of white space from both
ends of a text.

There are two groups.

* `isBlank`: the class itself, as a union of ranges of code points.
* `trim`: a text without the white space at its ends.
-/

namespace TinyLisp

/-- White space: the characters that separate words in running text, with the
control characters that separate lines, fields and records. -/
def isBlank (c : Char) : Bool :=
  let code := c.toNat
  (0x09 ≤ code && code ≤ 0x0D) || (0x1C ≤ code && code ≤ 0x20) || code == 0x85 || code == 0xA0 ||
    code == 0x1680 || (0x2000 ≤ code && code ≤ 0x200A) || code == 0x2028 || code == 0x2029 ||
    code == 0x202F || code == 0x205F || code == 0x3000

/-- The text without the white space at its two ends. -/
def trim (text : List Char) : List Char :=
  ((text.dropWhile isBlank).reverse.dropWhile isBlank).reverse

/-- `trim` on strings. -/
def trimmed (text : String) : String :=
  String.ofList (trim text.toList)

/-- A text of white space only. -/
def isBlankText (text : List Char) : Bool :=
  text.all isBlank

@[simp] theorem trim_nil : trim [] = [] := rfl

@[simp] theorem toList_trimmed (text : String) : (trimmed text).toList = trim text.toList := by
  simp [trimmed]

end TinyLisp
