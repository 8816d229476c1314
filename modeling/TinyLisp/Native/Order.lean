import TinyLisp.Native.Arithmetic
import TinyLisp.Value.Equality

/-!
# Order

There are three groups.

* `Number.compare?`: the order of two numbers by value, whatever their kind.
  Nothing is comparable with what is not a number.
* `Comparison`: the four operators on two values.  Numbers compare with
  numbers, strings with strings and forms with forms.
* `chainHolds` and `extremum`: the operators on rows of arguments.
-/

namespace TinyLisp

/-- The order of two doubles. -/
def Double.compare? (x y : Float) : Option Ordering :=
  if x < y then some .lt else if y < x then some .gt else if x == y then some .eq else none

/-- The order of a double and an integer, exactly. -/
def Double.compareInt? (x : Float) (n : Int) : Option Ordering :=
  match Double.fraction? x with
  | some fraction => some (fraction.compareInt n)
  | none => if x.isNaN then none else some (if x < 0.0 then .lt else .gt)

/-- The order of two numbers by value. -/
def Number.compare? : Number → Number → Option Ordering
  | .int a, .int b => some (compare a b)
  | .float x, .float y => Double.compare? x y
  | .float x, .int b => Double.compareInt? x b
  | .int a, .float y => (Double.compareInt? y a).map (·.swap)

/-- The operators that compare by order. -/
inductive Comparison where
  | less | greater | lessEqual | greaterEqual
deriving DecidableEq, Repr

namespace Comparison

/-- How the operator is written. -/
def symbol : Comparison → String
  | less => "<"
  | greater => ">"
  | lessEqual => "<="
  | greaterEqual => ">="

/-- Whether the operator holds of two things in the given order. -/
def accepts : Comparison → Ordering → Bool
  | less, order => order == .lt
  | greater, order => order == .gt
  | lessEqual, order => order != .gt
  | greaterEqual, order => order != .lt

/-- Whether the operator holds of two rows of items: of the first two that are
not equal, or of the lengths if one row is a front of the other. -/
def holdsOfRows (operator : Comparison) (equals holds : Value → Value → Attempt Bool) :
    List Value → List Value → Attempt Bool
  | a :: as, b :: bs => do
    if ← equals a b then operator.holdsOfRows equals holds as bs else holds a.bare b.bare
  | as, bs => .ok (operator.accepts (compare as.length bs.length))

/-- Whether the operator holds of two values.  It does not hold of values that
are not comparable, and values without an order are a fault. -/
def holds (operator : Comparison) : Nat → Value → Value → Attempt Bool
  | 0, _, _ => .tooDeep
  | limit + 1, a, b =>
    match Number.ofReal? a, Number.ofReal? b with
    | some m, some n => .ok ((m.compare? n).any operator.accepts)
    | _, _ =>
      match a, b with
      | .string s, .string t => .ok (operator.accepts (compare s t))
      | .form as, .form bs =>
        operator.holdsOfRows (fun a b => .orTooDeep (a.equals limit b)) (operator.holds limit)
          as bs
      | a, b => .fault (.unordered operator.symbol a.kind b.kind)

end Comparison

/-- Whether a test holds of each two neighbours.  The first failure decides. -/
def chainHolds (test : Value → Value → Attempt Bool) : List Value → Attempt Bool
  | a :: b :: rest => do if ← test a b then chainHolds test (b :: rest) else return false
  | _ => .ok true

/-- The first of the values that no other one goes before, where `holds a b`
says that `a` goes before `b`. -/
def bestOf (holds : Value → Value → Attempt Bool) (first : Value) (rest : List Value) :
    Attempt Value :=
  rest.foldlM (fun best candidate =>
    return if ← holds candidate best then candidate else best) first

/-- The values that a single argument stands for, and whether they are all of
it: a chain of pairs that is no proper list is found out only at its end. -/
def candidates : Value → Attempt (List Value × Bool)
  | .string text => .ok (text.toList.map fun c => .string c.toString, true)
  | .form items => .ok (items.map Value.bare, true)
  | .nil => .ok ([], true)
  | .pair cell head tail =>
    .ok ((Value.pair cell head tail).spine.1, (Value.pair cell head tail).isProperList)
  | other => .fault (.notIterable other.kind)

/-- The best of the arguments of `callee`, or of what a single argument holds. -/
def extremum (callee : String) (holds : Value → Value → Attempt Bool) :
    List Value → Attempt Value
  | [] => .fault (.noCandidate callee)
  | [collection] => do
    match ← candidates collection with
    | ([], _) => .fault (.emptySequence callee)
    | (first :: rest, complete) =>
      let best ← bestOf holds first rest
      if complete then return best else .wrongType .notProperList
  | first :: rest => bestOf holds first rest

end TinyLisp
