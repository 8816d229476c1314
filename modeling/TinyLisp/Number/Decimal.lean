import TinyLisp.Number.Double

/-!
# Decimals and doubles

Every finite double is a decimal fraction with finitely many digits, and every
decimal has a nearest double.  A double is written with the fewest digits that
read back as the same double.

There are three groups.

* `Decimal`: a natural number times a power of ten, and `Decimal.toDouble`, the
  nearest double.
* `Decimal.exact`: all the digits of the magnitude of a double.
* `Decimal.shortest`: the fewest digits that read back, and among those the
  nearest to the double.  `Decimal.toDouble_rounding` says that a rounding
  which is chosen does read back.
-/

namespace TinyLisp

/-- The number `digits * 10 ^ exponent`. -/
structure Decimal where
  digits : Nat
  exponent : Int
deriving DecidableEq

namespace Decimal

/-- The nearest double, a tie going to the even mantissa.  Beyond the doubles
stands infinity. -/
def toDouble (d : Decimal) : Float :=
  .ofModel (.ofScientific d.digits d.exponent)

/-- How many digits a number has in decimal notation. -/
def width (digits : Nat) : Nat :=
  (Nat.toDigits 10 digits).length

/-- The same number without zeros at its end, looking at no more than `limit`
of them. -/
def dropZeros : Nat → Decimal → Decimal
  | 0, d => d
  | limit + 1, d =>
    if d.digits ≠ 0 ∧ d.digits % 10 = 0 then dropZeros limit ⟨d.digits / 10, d.exponent + 1⟩
    else d

/-- The same number without zeros at its end. -/
def withoutZeros (d : Decimal) : Decimal :=
  dropZeros (width d.digits) d

/-- All digits of the magnitude of a binary fraction. -/
def exact (x : BinaryFraction) : Decimal :=
  if 0 ≤ x.exponent then ⟨x.mantissa.natAbs * Nat.pow 2 x.exponent.toNat, 0⟩
  else ⟨x.mantissa.natAbs * Nat.pow 5 (-x.exponent).toNat, x.exponent⟩

/-- The two neighbours of a decimal among the decimals whose digits end
`dropped` places earlier, the nearer one first.  Of two neighbours at the same
distance the even one comes first. -/
def neighbours (d : Decimal) (dropped : Nat) : List Decimal :=
  let unit := Nat.pow 10 dropped
  let below := d.digits / unit
  let exponent := d.exponent + dropped
  let belowFirst := [⟨below, exponent⟩, ⟨below + 1, exponent⟩]
  match compare (2 * (d.digits % unit)) unit with
  | .lt => belowFirst
  | .gt => belowFirst.reverse
  | .eq => if below % 2 = 0 then belowFirst else belowFirst.reverse

/-- The nearest decimal of `count` digits that reads back as `x`, if one of the
two neighbours with so few digits does.  It ends without zeros. -/
def rounding? (x : Float) (d : Decimal) (count : Nat) : Option Decimal :=
  ((d.neighbours (width d.digits - count)).map withoutZeros).find? fun candidate =>
    candidate.toDouble = x

/-- The fewest digits that read back as the positive double `x`, whose exact
decimal is `d`. -/
def shortestOf (x : Float) (d : Decimal) : Decimal :=
  ((List.range (width d.digits)).findSome? fun count => rounding? x d (count + 1)).getD d

/-- The fewest digits that read back as the magnitude of the double `x`, which
stands for the binary fraction `fraction`. -/
def shortest (x : Float) (fraction : BinaryFraction) : Decimal :=
  shortestOf x.abs (exact fraction)

/-- A rounding that is chosen reads back. -/
theorem toDouble_rounding {x : Float} {d e : Decimal} {count : Nat}
    (h : rounding? x d count = some e) : e.toDouble = x := by
  simpa using List.find?_some h

end Decimal

end TinyLisp
