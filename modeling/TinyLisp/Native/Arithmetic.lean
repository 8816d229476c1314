import TinyLisp.Value.Printer
import TinyLisp.Number.Double

/-!
# Arithmetic of the natives

Numbers are integers of any size and doubles.  Sums, products and the functions
on real numbers work on doubles; differences and negation keep integers exact.

There are five groups.

* `Number`: the two kinds of numbers, which values are numbers, and which count
  as real numbers: the truth values do, as zero and one.
* `sum`, `product`, `difference` and `quotient` of any number of operands.
* `remainder` and `floorRemainder`: the remainders with the sign of the
  dividend and of the divisor.
* Real functions, with their domains and ranges.
* Integers: rounding to one, reading one, stepping to the next.
-/

namespace TinyLisp

/-- A number. -/
inductive Number where
  | int (value : Int)
  | float (value : Float)

namespace Number

/-- The number as a value. -/
def toValue : Number → Value
  | int value => .int value
  | float value => .float value

/-- The number that a value is. -/
def ofValue? : Value → Option Number
  | .int value => some (int value)
  | .float value => some (float value)
  | _ => none

/-- The number that a value counts as; the truth values count as one and zero. -/
def ofReal? : Value → Option Number
  | .int value => some (int value)
  | .float value => some (float value)
  | .bool value => some (int (if value then 1 else 0))
  | _ => none

/-- The nearest double. -/
def toDouble : Number → Attempt Float
  | int value => .orFault .integerTooLarge (Double.ofInt? value)
  | float value => .ok value

end Number

namespace Arithmetic

/-- An argument of the native `name` that must be a number. -/
def number (depth : Nat) (name : String) (argument : Value) : Attempt Number :=
  match Number.ofValue? argument with
  | some number => .ok number
  | none => do .wrongType (.notNumbers name (← argument.text depth))

/-- The arguments of the native `name`, which must all be numbers. -/
def numbers (depth : Nat) (name : String) (arguments : List Value) : Attempt (List Number) :=
  arguments.mapM (number depth name)

/-! ## Operands from left to right -/

/-- The sum of doubles from zero on. -/
def sum (operands : List Number) : Attempt Float :=
  operands.foldlM (fun total operand => return total + (← operand.toDouble)) 0.0

/-- The product of doubles from one on. -/
def product (operands : List Number) : Attempt Float :=
  operands.foldlM (fun total operand => return total * (← operand.toDouble)) 1.0

/-- The negative of a number. -/
def negative : Number → Number
  | .int value => .int (-value)
  | .float value => .float (-value)

/-- The difference of two numbers, exact for two integers. -/
def minus : Number → Number → Attempt Number
  | .int a, .int b => .ok (.int (a - b))
  | a, b => return .float ((← a.toDouble) - (← b.toDouble))

/-- The quotient of two numbers. -/
def dividedBy : Number → Number → Attempt Number
  | .int a, .int b =>
    if b = 0 then .fault .integerDivisionByZero
    else return .float (← .orFault .quotientTooLarge (Double.quotient? a b))
  | a, b => do
    let dividend ← a.toDouble
    let divisor ← b.toDouble
    if divisor == 0.0 then .fault .floatDivisionByZero else return .float (dividend / divisor)

/-- The first number less all others, or the negative of a single one. -/
def difference : List Number → Attempt Number
  | [] => .error (.error (.noOperand "-"))
  | [only] => .ok (negative only)
  | first :: others => others.foldlM minus first

/-- The first number divided by all others, or the reciprocal of a single one. -/
def quotient : List Number → Attempt Number
  | [] => .error (.error (.noOperand "/"))
  | [only] => dividedBy (.int 1) only
  | first :: others => others.foldlM dividedBy first

/-! ## Remainders -/

/-- The remainder of the division of doubles that rounds towards zero. -/
def remainderOfDoubles (a b : Float) : Attempt Float :=
  .orFault .outsideDomain (Double.remainder? a b)

/-- The remainder with the sign of the dividend. -/
def remainder (a b : Number) : Attempt Float := do
  remainderOfDoubles (← a.toDouble) (← b.toDouble)

/-- The remainder with the sign of the divisor: the remainder is moved by the
divisor and brought back. -/
def floorRemainder (a b : Number) : Attempt Float := do
  let divisor ← b.toDouble
  remainderOfDoubles ((← remainder a b) + divisor) divisor

/-! ## Real functions -/

/-- The double that a real argument counts as. -/
def real (argument : Value) : Attempt Float :=
  match Number.ofReal? argument with
  | some number => number.toDouble
  | none => .fault (.notReal argument.kind)

/-- The square root, which a negative number does not have. -/
def squareRoot (argument : Value) : Attempt Float := do
  let x ← real argument
  if x < 0.0 then .fault .outsideDomain else return x.sqrt

/-- A function that is not defined at the infinities. -/
def bounded (function : Float → Float) (argument : Value) : Attempt Float := do
  let x ← real argument
  if x.isInf then .fault .outsideDomain else return function x

/-- A power.  A power of finite numbers that is not a number, or a negative
power of zero, is outside the domain; one that is infinite is out of range. -/
def power (base exponent : Value) : Attempt Float := do
  let x ← real base
  let y ← real exponent
  let result := x.pow y
  if !x.isFinite || !y.isFinite then return result
  else if result.isNaN || (x == 0.0 && y < 0.0) then .fault .outsideDomain
  else if result.isInf then .fault .outsideRange
  else return result

/-- The ratio of a circle's circumference to its diameter. -/
def pi : Float := 3.141592653589793

/-- An angle in degrees as radians. -/
def radians (argument : Value) : Attempt Float :=
  return (← real argument) * (pi / 180.0)

/-- The magnitude of a number. -/
def absolute (argument : Value) : Attempt Value :=
  match Number.ofReal? argument with
  | some (.int value) => .ok (.int value.natAbs)
  | some (.float value) => .ok (.float value.abs)
  | none => .fault (.badOperand "abs()" argument.kind)

/-- The negative of a number. -/
def negate (argument : Value) : Attempt Value :=
  match Number.ofReal? argument with
  | some number => .ok (negative number).toValue
  | none => .fault (.badOperand "unary -" argument.kind)

/-! ## Integers -/

/-- The fraction of a double that is to become an integer. -/
def fraction (x : Float) : Attempt BinaryFraction :=
  match Double.fraction? x with
  | some fraction => .ok fraction
  | none => .fault (if x.isNaN then .nanToInteger else .infiniteToInteger)

/-- An integral double next to a number. -/
def integral (round : BinaryFraction → Int) (argument : Value) : Attempt Float :=
  match Number.ofReal? argument with
  | some (.int value) => Number.toDouble (.int value)
  | some (.float value) => do Number.toDouble (.int (round (← fraction value)))
  | none => .fault (.notReal argument.kind)

/-- The largest integer that is not above the number and a half. -/
def rounded (argument : Value) : Attempt Float :=
  match argument, Number.ofReal? argument with
  | _, some number => do
    let fraction ← fraction ((← number.toDouble) + 0.5)
    Number.toDouble (.int fraction.floor)
  | .string _, none => .fault (.onlyConcatenates "str" "float")
  | .form _, none => .fault (.onlyConcatenates "list" "float")
  | other, none => .fault (.unsupported "+" other.kind "float")

/-- A random number times a bound. -/
def scaleBy (draw : Float) (argument : Value) : Attempt Float :=
  match argument, Number.ofReal? argument with
  | _, some number => return draw * (← number.toDouble)
  | .string _, none | .form _, none => .fault .repeatedByFraction
  | other, none => .fault (.unsupported "*" "float" other.kind)

/-- The next number in a row of numbers. -/
def successor (value : Value) : Attempt Value :=
  match value, Number.ofReal? value with
  | _, some (.int value) => .ok (.int (value + 1))
  | _, some (.float value) => .ok (.float (value + 1.0))
  | .string _, none => .fault (.onlyConcatenates "str" "int")
  | .form _, none => .fault (.notIterable "int")
  | other, none => .fault (.unsupported "+=" other.kind "int")

end Arithmetic

end TinyLisp
