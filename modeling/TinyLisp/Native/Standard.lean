import TinyLisp.Native.Building
import TinyLisp.Native.Calling
import TinyLisp.Native.Definition

/-!
# The standard natives

There are two groups.

* Natives from attempts: what a native that only computes does is an attempt on
  its arguments.
* `Primitive.native`: what each primitive does.  Several names may stand for
  one primitive.
-/

namespace TinyLisp

/-- The definition of a native from an attempt on its argument. -/
def attemptOne (count : ArgumentCount) (attempt : Value → Attempt Value) : Native :=
  .unary count fun a => Run.ofAttempt (attempt a)

/-- The definition of a native from an attempt on its two arguments. -/
def attemptTwo (count : ArgumentCount) (attempt : Value → Value → Attempt Value) : Native :=
  .binary count fun a b => Run.ofAttempt (attempt a b)

/-- The definition of a native from an attempt on its arguments. -/
def attemptAll (attempt : List Value → Attempt Value) : Native :=
  .variadic fun arguments => Run.ofAttempt (attempt arguments)

/-- A native that answers a question about its argument. -/
def question (parameter : String) (answer : Value → Bool) (callee : String) : Native :=
  .unary (.parameters callee [parameter]) fun a => pure (.bool (answer a))

/-- The name of natives that have no name of their own. -/
def anonymous : String := "<lambda>"

/-- A comparison of each two neighbours among the arguments. -/
def comparison (m : Machine) (operator : Comparison) : Native :=
  attemptAll fun arguments => return .bool (← chainHolds (operator.holds m.depth) arguments)

/-- A remainder of two numbers.  The native is `name` where it speaks of its
arguments and `callee` where it speaks of their count. -/
def remainderOf (m : Machine) (name callee : String) (rest : Number → Number → Attempt Float) :
    Native :=
  attemptTwo (.parameters callee ["a", "b"]) fun a b => do
    let dividend ← Arithmetic.number m.depth name a
    let divisor ← Arithmetic.number m.depth name b
    return .float (← rest dividend divisor)

/-- What a primitive does. -/
def Primitive.native (m : Machine) : Primitive → Native
  -- real functions
  | .absolute => attemptOne (.exactlyOne "abs") Arithmetic.absolute
  | .maximum => attemptAll (extremum "max" (Comparison.greater.holds m.depth))
  | .minimum => attemptAll (extremum "min" (Comparison.less.holds m.depth))
  | .squareRoot =>
    attemptOne (.exactlyOne "math.sqrt") fun a => return .float (← Arithmetic.squareRoot a)
  | .sine =>
    attemptOne (.exactlyOne "math.sin") fun a => return .float (← Arithmetic.bounded .sin a)
  | .cosine =>
    attemptOne (.exactlyOne "math.cos") fun a => return .float (← Arithmetic.bounded .cos a)
  | .power =>
    attemptTwo (.exactlyTwo "pow") fun a b => return .float (← Arithmetic.power a b)
  | .round =>
    attemptOne (.parameters anonymous ["x"]) fun a => return .float (← Arithmetic.rounded a)
  | .floor =>
    attemptOne (.parameters anonymous ["x"]) fun a =>
      return .float (← Arithmetic.integral BinaryFraction.floor a)
  | .ceiling =>
    attemptOne (.parameters anonymous ["x"]) fun a =>
      return .float (← Arithmetic.integral BinaryFraction.ceiling a)
  | .radians =>
    attemptOne (.exactlyOne "math.radians") fun a => return .float (← Arithmetic.radians a)
  | .random =>
    .unary (.parameters anonymous ["n"]) fun a => do
      let draw ← modifyGet Store.draw
      return .float (← Run.ofAttempt (Arithmetic.scaleBy draw a))
  -- arithmetic
  | .add =>
    attemptAll fun arguments =>
      return .float (← Arithmetic.sum (← Arithmetic.numbers m.depth "+" arguments))
  | .subtract =>
    attemptAll fun arguments =>
      return (← Arithmetic.difference (← Arithmetic.numbers m.depth "-" arguments)).toValue
  | .multiply =>
    attemptAll fun arguments =>
      return .float (← Arithmetic.product (← Arithmetic.numbers m.depth "*" arguments))
  | .divide =>
    attemptAll fun arguments =>
      return (← Arithmetic.quotient (← Arithmetic.numbers m.depth "/" arguments)).toValue
  | .modulo => remainderOf m "modulo" "modulo" Arithmetic.remainder
  | .floorModulo => remainderOf m "mod" "floor_mod" Arithmetic.floorRemainder
  | .negate => attemptOne (.parameters anonymous ["x"]) Arithmetic.negate
  -- comparison
  | .numericEqual =>
    attemptAll fun arguments =>
      return .bool (← chainHolds (fun a b => .orTooDeep (a.equals m.depth b)) arguments)
  | .less => comparison m .less
  | .greater => comparison m .greater
  | .lessEqual => comparison m .lessEqual
  | .greaterEqual => comparison m .greaterEqual
  | .same =>
    attemptTwo (.parameters "is_eq" ["a", "b"]) fun a b =>
      return .bool (← .orTooDeep (a.same m.depth b))
  | .equal =>
    attemptTwo (.parameters "is_equal" ["a", "b"]) fun a b =>
      return .bool (← .orTooDeep (a.equal m.depth b))
  | .not => question "x" (!·.isTruthy) "logical_not"
  -- kinds
  | .isNull => question "x" (· matches .nil) anonymous
  | .isNumber => question "x" (fun a => (Number.ofValue? a).isSome) anonymous
  | .isString => question "x" (· matches .string _) anonymous
  | .isSymbol => question "x" (· matches .symbol _) anonymous
  | .isProcedure => question "value" Value.isCallable "is_callable"
  | .isList => question "value" Value.isProperList "is_proper_list"
  | .isPair => question "x" (· matches .pair ..) anonymous
  -- lists
  | .cons => .binary (.parameters "cons" ["head", "tail"]) Run.newPair
  | .head => .unary (.parameters "car" ["x"]) (Building.part m "car" fun head _ => head)
  | .tail => .unary (.parameters "cdr" ["x"]) (Building.part m "cdr" fun _ tail => tail)
  | .list => .variadic Run.newList
  | .length => attemptOne (.parameters "length" ["x"]) (Sequence.length m.depth)
  | .listRef => attemptTwo (.parameters "list_ref" ["lst", "n"]) (Sequence.item m.depth)
  | .append => .variadic (Building.append m)
  | .range =>
    .binary (.parameters "list_range" ["start", "end"]) fun start stop => do
      Run.newList (← Run.ofAttempt (Sequence.countUp m.depth m.rounds start stop))
  | .sum =>
    attemptOne (.parameters "list_sum" ["lst"]) fun list => do
      let operands ← Arithmetic.numbers m.depth "+" (← Sequence.elements m.depth list)
      return .float (← Arithmetic.sum operands)
  | .map => .binary (.parameters "list_map" ["fn", "lst"]) (Calling.map m)
  | .filter => .binary (.parameters "list_filter" ["pred", "lst"]) (Calling.filter m)
  | .reduce => .ternary (.parameters "list_reduce" ["fn", "init", "lst"]) (Calling.reduce m)
  | .reverse =>
    .unary (.parameters "list_reverse" ["lst"]) fun list => do
      Run.newList (← Calling.elementsOf m list).reverse
  | .last => attemptOne (.parameters "list_last" ["lst"]) (Sequence.last m.depth)
  | .forEach => .binary (.parameters "for_each" ["fn", "lst"]) (Calling.forEach m)
  | .apply => .binary (.parameters "apply_native" ["fn", "args"]) (Calling.apply m)
  -- texts
  | .stringAppend => .variadic (Building.stringAppend m)
  | .numberToString =>
    .unary (.parameters "number_to_string" ["n"]) (Building.numberToString m)
  | .stringToNumber =>
    .unary (.parameters "string_to_number" ["s"]) (Building.stringToNumber m)
  -- callbacks and output
  | .makeCallback => .unary (.parameters "make_callback" ["fn"]) (Calling.makeCallback m)
  | .print => .variadic (Building.print m)

/-- What the setter of global names does. -/
def setGlobalNative (m : Machine) (scope : ScopeId) : Native :=
  .binary (.parameters "make_set_global.<locals>.set_global" ["name", "value"])
    (Building.setGlobal m scope)

end TinyLisp
