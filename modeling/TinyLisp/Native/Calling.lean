import TinyLisp.Machine
import TinyLisp.Native.Sequence

/-!
# Natives that invoke procedures

There are three groups.

* `invoke`: how a native invokes a procedure argument.  Its errors pass through
  unchanged.
* `map`, `filter`, `reduce`, `forEach` and `apply`: a procedure on the elements
  of a list, in order and once each, up to the first failure.
* `makeCallback`: a native that invokes a procedure later.
-/

namespace TinyLisp.Calling

/-- Invokes a procedure argument. -/
def invoke (m : Machine) (procedure : Value) (arguments : List Value) : Run Value := do
  if procedure.isCallable then m.invoke procedure arguments
  else Run.fail (.wrongType (.notProcedure (← m.text procedure)))

/-- The elements of a list argument. -/
def elementsOf (m : Machine) (list : Value) : Run (List Value) :=
  Run.ofAttempt (Sequence.elements m.depth list)

/-- The list of the results for each element. -/
def map (m : Machine) (procedure list : Value) : Run Value := do
  let items ← elementsOf m list
  let results ← items.mapM fun item => invoke m procedure [item]
  Run.newList results

/-- The list of the elements for which the result is truthy. -/
def filter (m : Machine) (procedure list : Value) : Run Value := do
  let items ← elementsOf m list
  let kept ← items.filterM fun item => return (← invoke m procedure [item]).isTruthy
  Run.newList kept

/-- The elements combined from the left. -/
def reduce (m : Machine) (procedure initial list : Value) : Run Value := do
  let items ← elementsOf m list
  items.foldlM (fun total item => invoke m procedure [total, item]) initial

/-- Invokes a procedure on each element for its effects. -/
def forEach (m : Machine) (procedure list : Value) : Run Value := do
  let items ← elementsOf m list
  items.forM fun item => do let _ ← invoke m procedure [item]
  return .undefined

/-- Invokes a procedure on the elements as arguments. -/
def apply (m : Machine) (procedure list : Value) : Run Value := do
  invoke m procedure (← elementsOf m list)

/-- A native that invokes a procedure without arguments. -/
def makeCallback (m : Machine) (procedure : Value) : Run Value := do
  if procedure.isCallable then return .callback (← Run.reserve 1) procedure
  else Run.fail (.wrongType (.notProcedure (← m.text procedure)))

end TinyLisp.Calling
