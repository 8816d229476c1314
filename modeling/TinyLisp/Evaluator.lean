import TinyLisp.Native.Standard
import TinyLisp.SpecialForm

/-!
# The evaluator

There are three groups.

* Forms: special forms by their keyword, and application: the head, the
  operands from left to right, and then the invocation.
* `evalStep` and `invokeStep`: one level of evaluation and of invocation, on
  top of a machine for the levels below.  What host functions do is a parameter.
* `Machine.ofDepth`: the machine with a given number of levels.  A machine
  without levels refuses everything, which is how the recursion is limited.
-/

namespace TinyLisp

namespace Machine

/-- Stops because a value at the head of a form cannot be invoked. -/
def refuse (m : Machine) (value : Value) : Run Value := do
  Run.fail (.notCallable ⟨value, ← m.text value⟩)

/-- The keyword at the head of a form, if there is one. -/
def keyword? : Value → Option Keyword
  | .identifier name => Keyword.ofName? name
  | _ => none

/-- Evaluates the head and the operands of a form and invokes the head. -/
def application (m : Machine) (scope : ScopeId) (head : Value) (operands : List Value) :
    Run Value := do
  let callee ← m.eval scope head
  let arguments ← operands.mapM (m.eval scope)
  if callee.isCallable then m.invoke callee arguments else m.refuse callee

/-- Evaluates a form. -/
def evalForm (m : Machine) (scope : ScopeId) (head : Value) (operands : List Value) :
    Run Value :=
  match keyword? head with
  | some keyword => SpecialForm.run m scope keyword operands
  | none => m.application scope head operands

end Machine

/-- What an operation does. -/
def Operation.native (hosts : Hosts) (m : Machine) : Operation → Native
  | primitive operation => operation.native m
  | host function => hosts.native function m
  | setGlobal scope => setGlobalNative m scope

/-- What a callback does. -/
def callbackNative (m : Machine) (target : Value) : Native :=
  .nullary (.parameters "make_callback.<locals>.<lambda>" []) (m.invoke target [])

/-! ## Levels -/

namespace Machine

/-- The scope of a call: the parameters in order, each bound to its argument.
Arguments without a parameter are dropped, and parameters without an argument
are not bound. -/
def callScope (parameters : List String) (arguments : List Value) (outer : ScopeId) : Scope :=
  (Scope.empty (some outer)).bindAll (parameters.zip arguments)

/-- One level of evaluation. -/
def evalStep (m : Machine) (scope : ScopeId) : Value → Run Value
  | .identifier name => Run.lookup scope name
  | .form [] => pure .nil
  | .form (head :: operands) => m.evalForm scope head operands
  | .embedded _ value => pure value
  | other => pure other

/-- One level of invocation. -/
def invokeStep (hosts : Hosts) (m : Machine) (callee : Value) (arguments : List Value) :
    Run Value :=
  match callee with
  | .procedure _ parameters body outer => do
    let scope ← Run.newScope (callScope parameters arguments outer)
    m.evalBody scope body
  | .native _ name operation => Run.inNative name ((operation.native hosts m).call arguments)
  | .callback _ target =>
    Run.inNative Value.callbackName ((callbackNative m target).call arguments)
  | other => m.refuse other

/-- A machine that refuses everything. -/
def bottom (rounds : Nat) : Machine where
  depth := 0
  rounds := rounds
  eval _ _ := throw .tooDeep
  invoke _ _ := throw .tooDeep

/-- One more level on top of a machine. -/
def above (hosts : Hosts) (m : Machine) : Machine where
  depth := m.depth + 1
  rounds := m.rounds
  eval := m.evalStep
  invoke := m.invokeStep hosts

/-- The machine with `depth` levels. -/
def ofDepth (hosts : Hosts) (rounds : Nat) : Nat → Machine
  | 0 => bottom rounds
  | depth + 1 => above hosts (ofDepth hosts rounds depth)

variable {hosts : Hosts}

@[simp] theorem depth_ofDepth (rounds depth : Nat) :
    (ofDepth hosts rounds depth).depth = depth := by
  induction depth with
  | zero => rfl
  | succ depth ih => exact congrArg (· + 1) ih

theorem rounds_ofDepth (rounds depth : Nat) : (ofDepth hosts rounds depth).rounds = rounds := by
  induction depth with
  | zero => rfl
  | succ depth ih => exact ih

end Machine

end TinyLisp
