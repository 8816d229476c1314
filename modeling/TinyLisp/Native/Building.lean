import TinyLisp.Machine
import TinyLisp.Native.Sequence

/-!
# Pairs, texts and names

There are three groups.

* `part` and `append`: reading a pair, and lists in front of a shared last one.
* Texts: `plainText`, in which a string stands for itself, and the natives that
  join, print and convert texts.
* `setGlobal`: binding a name outside all scopes but the root.
-/

namespace TinyLisp.Building

/-! ## Lists -/

/-- A part of a pair. -/
def part (m : Machine) (callee : String) (choose : Value → Value → Value) : Value → Run Value
  | .pair _ head tail => pure (choose head tail)
  | other => do Run.fail (.wrongType (.notPair callee (← m.text other)))

/-- The elements of all lists but the last in front of the last, which is
shared. -/
def append (m : Machine) (lists : List Value) : Run Value :=
  match lists.getLast? with
  | none => pure .nil
  | some last => do
    let items ← Run.ofAttempt (Sequence.elementsOfAll m.depth lists.dropLast)
    Run.newChain items last

/-! ## Texts -/

/-- A value as a text: a string is its own text. -/
def plainText (m : Machine) : Value → Run String
  | .string text => pure text
  | value => m.text value

/-- The texts of the arguments, one behind the other. -/
def stringAppend (m : Machine) (arguments : List Value) : Run Value :=
  return .string (String.join (← arguments.mapM (plainText m)))

/-- Prints the texts of the arguments on one line. -/
def print (m : Machine) (arguments : List Value) : Run Value := do
  let texts ← arguments.mapM (plainText m)
  Run.print (" ".intercalate texts ++ "\n")
  return .undefined

/-- The text of a number. -/
def numberToString (m : Machine) (argument : Value) : Run Value := do
  let _ ← Run.ofAttempt (Arithmetic.numbers m.depth "number->string" [argument])
  return .string (← m.text argument)

/-- The number that a string stands for. -/
def stringToNumber (m : Machine) : Value → Run Value
  | .string text =>
    match parseNumber? text.toList with
    | some number => pure (.float number)
    | none => do Run.fail (.wrongType (.notNumeral (← m.text (.string text))))
  | other => do Run.fail (.wrongType (.notString "string->number" (← m.text other)))

/-- Binds a name in the root of a chain of scopes. -/
def setGlobal (m : Machine) (scope : ScopeId) (target value : Value) : Run Value := do
  match target with
  | .symbol global | .string global =>
    Run.bind ((← get).rootOf scope) global value
    return value
  | other => Run.fail (.wrongType (.notName "set-global" (← m.text other)))

end TinyLisp.Building
