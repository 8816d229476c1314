import TinyLisp.Attempt
import TinyLisp.Number.Decimal

/-!
# How numbers are written

An integer is written with all its digits, of which there is a limit.  There
are two notations for a double.

* `Double.inspect` shows that the number is a double: it keeps a point, and
  very large and very small magnitudes take an exponent.
* `Double.text` is the notation of the language: an integral double is written
  as the integer it is, with all its digits.
-/

namespace TinyLisp

/-- The digits of a natural number. -/
def digitsOf (n : Nat) : List Char :=
  Nat.toDigits 10 n

/-- The digits of an integer behind its sign. -/
def integerText (n : Int) : List Char :=
  if n < 0 then '-' :: digitsOf n.natAbs else digitsOf n.natAbs

/-- How many digits an integer may have that is written or read. -/
def longestInteger : Nat := 4300

/-- The text of an integer that is not too long to be written. -/
def writeInteger (n : Int) : Attempt (List Char) :=
  if n.natAbs < Nat.pow 10 longestInteger then .ok (integerText n) else .fault .longInteger

namespace Decimal

/-- Plain notation of the digits `digits` with `before` of them before the
point.  There is at least one digit on each side of the point. -/
def plain (digits : List Char) (before : Int) : List Char :=
  if before ≤ 0 then '0' :: '.' :: List.replicate (-before).toNat '0' ++ digits
  else if digits.length ≤ before.toNat then
    digits ++ List.replicate (before.toNat - digits.length) '0' ++ ['.', '0']
  else digits.take before.toNat ++ '.' :: digits.drop before.toNat

/-- The exponent behind its mark: a sign and at least two digits. -/
def exponentText (exponent : Int) : List Char :=
  let digits := digitsOf exponent.natAbs
  'e' :: (if exponent < 0 then '-' else '+') :: List.replicate (2 - digits.length) '0' ++ digits

/-- Exponent notation: one digit before the point, and no point when there is
no digit behind it. -/
def withExponent (digits : List Char) (exponent : Int) : List Char :=
  match digits with
  | [] => []
  | [digit] => digit :: exponentText exponent
  | digit :: rest => digit :: '.' :: rest ++ exponentText exponent

/-- A decimal in plain notation when its first digit stands for tenthousandths
at the least and for less than `10 ^ 16`, and in exponent notation otherwise. -/
def text (d : Decimal) : List Char :=
  let digits := digitsOf d.digits
  let before := d.exponent + digits.length
  if -4 < before ∧ before ≤ 16 then plain digits before
  else withExponent digits (before - 1)

end Decimal

namespace Double

/-- The sign of a double, written only when it is negative. -/
def signText (x : Float) : List Char :=
  if isNegative x then ['-'] else []

/-- The text of a double that is infinite or not a number. -/
def specialText (x : Float) : List Char :=
  if x.isNaN then "nan".toList else signText x ++ "inf".toList

/-- A double with the fewest digits that read back, always showing that it is
a double. -/
def inspect (x : Float) : List Char :=
  match fraction? x with
  | none => specialText x
  | some fraction =>
    signText x ++
      (if fraction.mantissa = 0 then "0.0".toList else (Decimal.shortest x fraction).text)

/-- A double in the notation of the language: an integral double is written as
the integer it is. -/
def text (x : Float) : List Char :=
  match fraction? x with
  | none => specialText x
  | some fraction => if fraction.isInteger then integerText fraction.floor else inspect x

end Double

end TinyLisp
