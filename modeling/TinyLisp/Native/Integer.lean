import TinyLisp.Native.Arithmetic
import TinyLisp.Number.Numeral
import TinyLisp.Text.Quoted

/-!
# Values as integers

Natives that need an index or a whole number turn their argument into an
integer.  A number loses its fraction and a string is read.

There are two groups.

* `readInteger`: integers as strings hold them: a sign, and digits of any
  script that single underscores may set apart, with white space around.
* `truncated`: the integer that a value stands for.
-/

namespace TinyLisp

/-- The white space around an integer, which is without the characters that
separate fields and records. -/
def isIntegerBlank (c : Char) : Bool :=
  isBlank c && !(0x1C ≤ c.toNat && c.toNat ≤ 0x1F)

/-- The characters of an integer behind its sign. -/
def isIntegerPart (c : Char) : Bool :=
  c == '_' || (digitValue? c).isSome

/-- The values of digits, each two of which may have one underscore between
them. -/
def spacedDigits? : List Char → Option (List Nat)
  | [] => none
  | [c] => (digitValue? c).map fun value => [value]
  | c :: '_' :: rest => do return (← digitValue? c) :: (← spacedDigits? rest)
  | c :: rest => do return (← digitValue? c) :: (← spacedDigits? rest)

/-- The fault of a string that is no integer. -/
def noInteger (text : String) : Fault :=
  .noIntegerLiteral (String.ofList ((Text.quoteForDiagnostics text).toList.take 200))

/-- The integer that a string stands for.  The count of its digits is looked at
before what follows them. -/
def readInteger (text : String) : Attempt Int :=
  let (negative, rest) := takeSign (text.toList.dropWhile isIntegerBlank)
  match spacedDigits? (rest.takeWhile isIntegerPart) with
  | none => .fault (noInteger text)
  | some digits =>
    if longestInteger < digits.length then .fault (.longIntegerLiteral digits.length)
    else if (rest.dropWhile isIntegerPart).all isIntegerBlank then
      let magnitude : Int := numberOfDigits digits
      .ok (if negative then -magnitude else magnitude)
    else .fault (noInteger text)

/-- The integer that a value stands for: a number without its fraction, or what
a string reads as. -/
def truncated (value : Value) : Attempt Int :=
  match value, Number.ofReal? value with
  | _, some (.int n) => .ok n
  | _, some (.float x) => return (← Arithmetic.fraction x).truncate
  | .string text, none => readInteger text
  | other, none => .fault (.noInteger other.kind)

end TinyLisp
