import TinyLisp.Native.Integer
import TinyLisp.Native.Order

/-!
# Lists

What the natives on lists compute without a new pair and without a call.

There are four groups.

* `elements`: the elements of a list argument.
* `length`, `item` and `last`: reading a list.
* `elementsOfAll`: the elements of several lists in order.
* `countUp`: the numbers of an interval.
-/

namespace TinyLisp.Sequence

/-- The elements of a list argument. -/
def elements (depth : Nat) (value : Value) : Attempt (List Value) :=
  match value with
  | .nil | .pair .. =>
    match value.toList? with
    | some items => .ok items
    | none => .wrongType .notProperList
  | other => do .wrongType (.notList (← other.inspected depth))

/-- A count as a number of the language. -/
def count (n : Nat) : Value :=
  .float (.ofModel (.ofInt n))

/-- The count of elements of a list, or of characters of a string. -/
def length (depth : Nat) : Value → Attempt Value
  | .string text => .ok (count text.length)
  | value => return count (← elements depth value).length

/-- The text of an index for diagnostics: a number as it is written, anything
else as it is built. -/
def indexText (depth : Nat) : Value → Attempt String
  | .float x => .ok (String.ofList (Double.text x))
  | value => value.inspected depth

/-- The integer that an index is, if it is one. -/
def index? (index : Value) : Attempt (Option Nat) := do
  let n ← truncated index
  let exact := match index with
    | .float x => sameNumber n x
    | .string _ => false
    | _ => true
  return if exact && 0 ≤ n then some n.toNat else none

/-- The element of a list at an index that counts from zero. -/
def item (depth : Nat) (list index : Value) : Attempt Value := do
  let items ← elements depth list
  match (← index? index).bind fun place => items[place]? with
  | some item => return item
  | none => .wrongType (.outOfBounds (← indexText depth index))

/-- The last element of a list. -/
def last (depth : Nat) (list : Value) : Attempt Value := do
  match (← elements depth list).getLast? with
  | some item => return item
  | none => .wrongType .lastOfEmpty

/-- The elements of several lists in order. -/
def elementsOfAll (depth : Nat) (lists : List Value) : Attempt (List Value) :=
  return (← lists.mapM (elements depth)).flatten

/-- The values from `current` on, each one above the one before, as long as
they are less than `stop`; `before` holds the values already found, the last
one first. -/
def countUpFrom (depth : Nat) (stop : Value) :
    Nat → List Value → Value → Attempt (List Value)
  | 0, _, _ => .error .tooLong
  | rounds + 1, before, current => do
    if ← Comparison.less.holds depth current stop then
      countUpFrom depth stop rounds (current :: before) (← Arithmetic.successor current)
    else return before.reverse

/-- The values from `start` on, in steps of one, as long as they are less than
`stop`. -/
def countUp (depth rounds : Nat) (start stop : Value) : Attempt (List Value) :=
  countUpFrom depth stop rounds [] start

end TinyLisp.Sequence
