import TinyLisp.Number.Decimal
import TinyLisp.Text.Blank
import TinyLisp.Text.Digit

/-!
# Numerals

A numeral is a sign, digits with at most one point among them or at an end,
and an exponent, in this order; the sign and the exponent may be absent, and a
digit must be there.  Its digits may be of any script.

There are three groups.

* `takeDigits` and `numberOfDigits`: runs of digits and their value.
* `Numeral.read?`: the numeral that a whole text is, if it is one.
* `parseNumber?`: the double that a text between white space stands for.
-/

namespace TinyLisp

/-- The values of the digits at the front of a text, and what follows them. -/
def takeDigits : List Char → List Nat × List Char
  | [] => ([], [])
  | c :: rest =>
    match digitValue? c with
    | some value =>
      let (values, after) := takeDigits rest
      (value :: values, after)
    | none => ([], c :: rest)

/-- The number that a row of digits stands for. -/
def numberOfDigits (digits : List Nat) : Nat :=
  digits.foldl (fun number digit => 10 * number + digit) 0

/-- A sign at the front of a text, `true` for minus, and what follows it. -/
def takeSign : List Char → Bool × List Char
  | '-' :: rest => (true, rest)
  | '+' :: rest => (false, rest)
  | text => (false, text)

/-- A signed decimal as it is written. -/
structure Numeral where
  negative : Bool
  magnitude : Decimal
deriving DecidableEq

namespace Numeral

/-- The digits behind a point at the front of a text, and what follows them. -/
def takeFraction : List Char → List Nat × List Char
  | '.' :: rest => takeDigits rest
  | text => ([], text)

/-- The exponent that the rest of a numeral is; zero for an empty rest. -/
def readExponent? : List Char → Option Int
  | [] => some 0
  | mark :: rest =>
    if mark = 'e' ∨ mark = 'E' then
      let (negative, rest) := takeSign rest
      match takeDigits rest with
      | ([], _) => none
      | (digits, []) =>
        let exponent := numberOfDigits digits
        some (if negative then -exponent else exponent)
      | (_, _ :: _) => none
    else none

/-- The numeral that the whole text is, if it is one. -/
def read? (text : List Char) : Option Numeral :=
  let (negative, text) := takeSign text
  let (whole, text) := takeDigits text
  let (fraction, text) := takeFraction text
  if whole.isEmpty && fraction.isEmpty then none
  else
    (readExponent? text).map fun exponent =>
      ⟨negative, numberOfDigits (whole ++ fraction), exponent - fraction.length⟩

/-- The nearest double. -/
def toDouble (n : Numeral) : Float :=
  if n.negative then -n.magnitude.toDouble else n.magnitude.toDouble

end Numeral

/-- The double that a text stands for when it is a numeral between white space. -/
def parseNumber? (text : List Char) : Option Float :=
  (Numeral.read? (trim text)).map Numeral.toDouble

end TinyLisp
