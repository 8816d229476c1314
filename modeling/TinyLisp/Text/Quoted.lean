import TinyLisp.Text.Printable

/-!
# Quoted text for diagnostics

Diagnostics show a text between quotation marks, with every character that
would not be seen written as an escape.  There are three groups.

* `mark`: the quotation mark of a text: a single mark, or a double one where
  that saves escaping single marks.
* `escape`: one character inside the marks.
* `quoteForDiagnostics`: the whole text.
-/

namespace TinyLisp.Text

/-- Single marks, unless the text holds a single mark and no double one. -/
def mark (text : List Char) : Char :=
  if text.contains '\'' && !text.contains '"' then '"' else '\''

/-- A number in lower-case hexadecimal digits, filled with zeros up to `width`. -/
def hexadecimal (width code : Nat) : List Char :=
  let digits := Nat.toDigits 16 code
  List.replicate (width - digits.length) '0' ++ digits

/-- One character between the marks `mark`.  The backslash and the mark take a
backslash; line ends and tabs have letters; other unprintable characters show
their code point in two, four or eight digits. -/
def escape (mark c : Char) : List Char :=
  if c == mark || c == '\\' then ['\\', c]
  else if c == '\n' then ['\\', 'n']
  else if c == '\r' then ['\\', 'r']
  else if c == '\t' then ['\\', 't']
  else if isPrintable c then [c]
  else if c.toNat < 0x100 then '\\' :: 'x' :: hexadecimal 2 c.toNat
  else if c.toNat < 0x10000 then '\\' :: 'u' :: hexadecimal 4 c.toNat
  else '\\' :: 'U' :: hexadecimal 8 c.toNat

/-- A text between quotation marks, as diagnostics show it. -/
def quoteForDiagnostics (text : String) : String :=
  let chars := text.toList
  let mark := mark chars
  String.ofList (mark :: chars.flatMap (escape mark) ++ [mark])

end TinyLisp.Text
