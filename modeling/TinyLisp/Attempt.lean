import TinyLisp.Error

/-!
# Attempts

A computation that neither reads nor changes a store is an attempt: it ends
with a result or with the reason why the evaluation stops.

`fault`, `wrongType` and `tooDeep` are its ways to fail.  `orFault` and
`orTooDeep` turn a result that may be absent into an attempt.
-/

namespace TinyLisp

/-- A computation without a store. -/
abbrev Attempt := Except Stop

namespace Attempt

/-- Ends with a fault. -/
def fault {α : Type} (fault : Fault) : Attempt α :=
  .error (.fault fault)

/-- Ends because an argument is of a kind that a native does not take. -/
def wrongType {α : Type} (problem : TypeProblem) : Attempt α :=
  .error (.error (.wrongType problem))

/-- Ends because the recursion went too deep. -/
def tooDeep {α : Type} : Attempt α :=
  .error .tooDeep

/-- The result of a computation, or a fault if it has none. -/
def orFault {α : Type} (fault : Fault) : Option α → Attempt α
  | some result => .ok result
  | none => Attempt.fault fault

/-- The result of a computation that has none beyond a limit of its depth. -/
def orTooDeep {α : Type} : Option α → Attempt α
  | some result => .ok result
  | none => tooDeep

end Attempt

end TinyLisp
