import TinyLisp.Keyword
import TinyLisp.Machine

/-!
# Special forms

A form with a keyword at its head decides by itself which of its operands are
evaluated, and in which scope.

There are three groups.

* Reading operands: names, parameter lists and bindings, with the shape
  problem of everything else.
* `quoted`: syntax turned into data.
* One definition for each special form, and `SpecialForm.run`, which chooses
  by the keyword.

Nothing here is recursive through evaluation: operands are evaluated by the
machine that is passed in.
-/

namespace TinyLisp.SpecialForm

/-! ## Operands -/

/-- Stops with a shape problem of a special form. -/
def malformed {α : Type} (keyword : Keyword) (problem : ShapeProblem) : Run α :=
  Run.fail (.invalidForm keyword problem)

/-- The names of a parameter list, which must all be identifiers. -/
def parameterNames (m : Machine) (keyword : Keyword) : List Value → Run (List String)
  | [] => pure []
  | .identifier name :: rest => do return name :: (← parameterNames m keyword rest)
  | other :: _ => do malformed keyword (.badParameter (← m.inspected other))

/-- A closure over the current scope. -/
def closure (m : Machine) (keyword : Keyword) (parameters body : List Value) (scope : ScopeId) :
    Run Value := do
  let names ← parameterNames m keyword parameters
  return .procedure (← Run.reserve 1) names body scope

/-- Syntax as data: identifiers become symbols and forms become lists. -/
def quoted : Nat → Value → Run Value
  | 0, _ => throw .tooDeep
  | limit + 1, expression =>
    match expression with
    | .identifier name => pure (.symbol name)
    | .form items => do Run.newList (← items.mapM (quoted limit))
    | .embedded _ value => pure value
    | other => pure other

/-! ## The forms -/

/-- One of two branches; without an alternative a failed test gives nothing. -/
def conditional (m : Machine) (scope : ScopeId) : List Value → Run Value
  | [test, consequent] => do
    if (← m.eval scope test).isTruthy then m.eval scope consequent else pure .undefined
  | [test, consequent, alternative] => do
    if (← m.eval scope test).isTruthy then m.eval scope consequent
    else m.eval scope alternative
  | _ => malformed .conditional .branches

/-- Binds a name in the current scope, to a value or to a procedure. -/
def definition (m : Machine) (scope : ScopeId) : List Value → Run Value
  | [] => malformed .definition .noTarget
  | .form (.identifier name :: parameters) :: body => do
    let procedure ← closure m .definition parameters body scope
    Run.bind scope name procedure
    pure .undefined
  | .form _ :: _ => malformed .definition .unnamedProcedure
  | [.identifier name, expression] => do
    let value ← m.eval scope expression
    Run.bind scope name value
    pure .undefined
  | .identifier _ :: _ => malformed .definition .definitionOperands
  | target :: _ => do malformed .definition (.badTarget (← m.inspected target))

/-- Binds the names of a binding list one after the other, each value evaluated
in the new scope itself. -/
def bindInTurn (m : Machine) (scope : ScopeId) : List Value → Run Unit
  | [] => pure ()
  | .form [.identifier name, expression] :: rest => do
    let value ← m.eval scope expression
    Run.bind scope name value
    bindInTurn m scope rest
  | other :: _ => do malformed .binding (.badBinding (← m.inspected other))

/-- A body in a new scope with bindings of its own. -/
def binding (m : Machine) (scope : ScopeId) : List Value → Run Value
  | .form bindings :: body => do
    let inner ← Run.newScope (.empty (some scope))
    bindInTurn m inner bindings
    m.evalBody inner body
  | _ => malformed .binding .noBindings

/-- A procedure. -/
def abstraction (m : Machine) (scope : ScopeId) : List Value → Run Value
  | [] => malformed .abstraction .noParameters
  | .form parameters :: body => closure m .abstraction parameters body scope
  | other :: _ => do malformed .abstraction (.badParameters (← m.inspected other))

/-- Expressions in order. -/
def sequence (m : Machine) (scope : ScopeId) (operands : List Value) : Run Value :=
  m.evalBody scope operands

/-- A body that is evaluated when a test holds. -/
def guard (m : Machine) (scope : ScopeId) : List Value → Run Value
  | [] => malformed .guard .noTest
  | test :: body => do
    if (← m.eval scope test).isTruthy then m.evalBody scope body else pure .undefined

/-- Repeats a body as long as a test holds, for at most `rounds` rounds. -/
def repeatWhile (m : Machine) (scope : ScopeId) (test : Value) (body : List Value) :
    Nat → Run Value
  | 0 => throw .tooLong
  | rounds + 1 => do
    if (← m.eval scope test).isTruthy then
      let _ ← m.evalBody scope body
      repeatWhile m scope test body rounds
    else pure .undefined

/-- A loop. -/
def loop (m : Machine) (scope : ScopeId) : List Value → Run Value
  | [] => malformed .loop .noTest
  | test :: body => repeatWhile m scope test body m.rounds

/-- Gives a new value to a name that is bound. -/
def assignment (m : Machine) (scope : ScopeId) : List Value → Run Value
  | [.identifier name, expression] => do
    let value ← m.eval scope expression
    Run.assign scope name value
    pure .undefined
  | [other, _] => do malformed .assignment (.badVariable (← m.inspected other))
  | _ => malformed .assignment .assignmentOperands

/-- An operand as data. -/
def quotation (m : Machine) : List Value → Run Value
  | [expression] => quoted m.depth expression
  | _ => malformed .quotation .quotationOperands

/-- Evaluates a special form in a scope. -/
def run (m : Machine) (scope : ScopeId) : Keyword → List Value → Run Value
  | .conditional => conditional m scope
  | .definition => definition m scope
  | .binding => binding m scope
  | .abstraction => abstraction m scope
  | .sequence => sequence m scope
  | .guard => guard m scope
  | .loop => loop m scope
  | .assignment => assignment m scope
  | .quotation => quotation m

end TinyLisp.SpecialForm
