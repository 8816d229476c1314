import TinyLisp.Machine
import TinyLisp.Reader

/-!
# Evaluating source text

The expressions of a source are evaluated one after the other, and an error in
reading is reported when the evaluation comes to it.  Reading does not depend
on evaluation, so a source is read first and evaluated then.
-/

namespace TinyLisp.Machine

/-- Evaluates the expressions of a row of tokens in order.  Those in front of a
syntax error are evaluated before it is reported. -/
def evalTokens (m : Machine) (scope : ScopeId) (tokens : List Token) : Run Value := do
  let (expressions, stop) := readAll m.depth tokens
  let result ← m.evalBody scope expressions
  match stop with
  | none => pure result
  | some stop => throw stop

/-- Evaluates the expressions of a source in order. -/
def evalText (m : Machine) (scope : ScopeId) (source : String) : Run Value :=
  m.evalTokens scope (tokenize source)

/-- Evaluates the first expression of a source and leaves the rest alone. -/
def evalFirst (m : Machine) (scope : ScopeId) (source : String) : Run Value :=
  match (readOne m.depth (tokenize source)).1 with
  | .ok expression => m.eval scope expression
  | .error stop => throw stop

end TinyLisp.Machine
