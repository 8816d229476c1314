/-!
# Exact arithmetic on doubles

A finite double is a binary fraction: an integer times a power of two.  This
module reads that fraction off, computes with it exactly, and rounds back to
the nearest double.

There are four groups.

* `BinaryFraction`: integers times powers of two, with `floor`, `ceiling`,
  `truncate` and the comparison with an integer.
* `fraction?` and `isNegative`: the fraction and the sign of a double.
* `ofFraction`, `ofInt?` and `quotient?`: the nearest double of an exact
  number, where one exists.
* `remainder?`: the exact remainder of a division that rounds towards zero.
-/

namespace TinyLisp

open Float.Model (UnpackedFloat)
open Float.Model.UnpackedFloat (Sign)

/-- A power of two. -/
def powerOfTwo (exponent : Nat) : Int :=
  Nat.pow 2 exponent

/-- The number `mantissa * 2 ^ exponent`. -/
structure BinaryFraction where
  mantissa : Int
  exponent : Int

namespace BinaryFraction

/-- The mantissa of the same number at an exponent that is not larger. -/
def mantissaAt (x : BinaryFraction) (exponent : Int) : Int :=
  x.mantissa * powerOfTwo (x.exponent - exponent).toNat

/-- The number times the power of two that makes its exponent vanish from below:
`x = scaled / 2 ^ places`. -/
def scaled (x : BinaryFraction) : Int :=
  x.mantissaAt (min x.exponent 0)

/-- The count of binary places behind the point. -/
def places (x : BinaryFraction) : Nat :=
  (-x.exponent).toNat

/-- The largest integer that is not above the number. -/
def floor (x : BinaryFraction) : Int :=
  x.scaled / powerOfTwo x.places

/-- The smallest integer that is not below the number. -/
def ceiling (x : BinaryFraction) : Int :=
  -(-x.scaled / powerOfTwo x.places)

/-- The integer next to the number on the side of zero. -/
def truncate (x : BinaryFraction) : Int :=
  x.scaled.tdiv (powerOfTwo x.places)

/-- Whether the number is an integer. -/
def isInteger (x : BinaryFraction) : Bool :=
  x.scaled % powerOfTwo x.places == 0

/-- The order of the number and an integer. -/
def compareInt (x : BinaryFraction) (n : Int) : Ordering :=
  compare x.scaled (n * powerOfTwo x.places)

end BinaryFraction

namespace Double

/-- The number that a finite double stands for. -/
def fraction? (x : Float) : Option BinaryFraction :=
  match x.toModel.unpack with
  | .finite sign mantissa exponent _ => some ⟨sign.apply mantissa, exponent⟩
  | .zero _ => some ⟨0, 0⟩
  | .infinity _ | .notANumber => none

/-- The sign of a double.  Zeros and infinities have one, too. -/
def signOf (x : Float) : Sign :=
  match x.toModel.unpack with
  | .finite sign .. | .zero sign | .infinity sign => sign
  | .notANumber => .positive

/-- Whether a double carries the negative sign. -/
def isNegative (x : Float) : Bool :=
  signOf x == .negative

/-- The double nearest to a binary fraction, a tie going to the even mantissa.
A zero result takes the given sign. -/
def ofFraction (x : BinaryFraction) (zeroSign : Sign) : Float :=
  .ofModel (.pack (UnpackedFloat.normalize .binary64 x.mantissa x.exponent zeroSign))

/-- The double nearest to an integer, if the integer is not beyond all of them. -/
def ofInt? (n : Int) : Option Float :=
  let x := Float.ofModel (.ofInt n)
  if x.isInf then none else some x

/-- The sign and the magnitude of an integer, for division. -/
def unpackInt (n : Int) : UnpackedFloat :=
  if h : n.natAbs = 0 then .zero .positive
  else .finite (if n < 0 then .negative else .positive) n.natAbs 0 (Nat.pos_of_ne_zero h)

/-- The double nearest to a quotient of integers with a divisor other than
zero, if the quotient is not beyond all doubles.  A zero dividend over a
negative divisor gives the negative zero. -/
def quotient? (dividend divisor : Int) : Option Float :=
  if dividend = 0 then some (if divisor < 0 then -0.0 else 0.0)
  else
    let x := Float.ofModel
      (.pack (UnpackedFloat.div .binary64 (unpackInt dividend) (unpackInt divisor)))
    if x.isInf then none else some x

/-- The remainder of the division of finite numbers that rounds towards zero.
It has the sign of the dividend, a zero remainder too, and is exact. -/
def remainderOfFractions (a b : BinaryFraction) (sign : Sign) : Float :=
  let exponent := min a.exponent b.exponent
  ofFraction ⟨(a.mantissaAt exponent).tmod (b.mantissaAt exponent), exponent⟩ sign

/-- The remainder of the division that rounds towards zero.  There is none for
an infinite dividend or a zero divisor; a dividend is its own remainder by an
infinite divisor. -/
def remainder? (a b : Float) : Option Float :=
  if a.isNaN || b.isNaN then some (0.0 / 0.0)
  else
    match fraction? a, fraction? b with
    | none, _ => none
    | some _, none => some a
    | some x, some y =>
      if y.mantissa = 0 then none else some (remainderOfFractions x y (signOf a))

end Double

end TinyLisp
