import TinyLisp.Error
import TinyLisp.Store
import TinyLisp.Value.Printer

/-!
# Running

An evaluation changes a store and ends with a value or with the reason why it
stopped.  The store is kept in both cases.

There are three groups.

* `Run` and the actions on the store: searching and binding names, new scopes,
  pairs and lists, printing.  `Run.inNative` turns a fault into an error of the
  native in which it arises.  `Run.bind_of_ok` and `Run.bind_of_error` say how
  computations follow each other, and `Run.lookup_of_some` and its neighbours how
  searches end.
* `Machine`: evaluation and invocation as they may be used one level further
  down.  Everything that calls back into the evaluator takes a machine, so no
  definition outside the evaluator is recursive through it.
* Texts of values for error messages, which need not exist.
-/

namespace TinyLisp

/-- A computation on a store. -/
abbrev Run := EStateM Stop Store

namespace Run

/-- What comes behind a computation that ends well goes on from the state that is left. -/
theorem bind_of_ok {σ α β : Type} {first : EStateM Stop σ α} {next : α → EStateM Stop σ β}
    {s t : σ} {a : α} (h : first s = .ok a t) : (first >>= next) s = next a t := by
  show EStateM.bind first next s = _
  unfold EStateM.bind
  rw [h]

/-- What comes behind a computation that stops is never begun. -/
theorem bind_of_error {σ α β : Type} {first : EStateM Stop σ α} {next : α → EStateM Stop σ β}
    {s t : σ} {stop : Stop} (h : first s = .error stop t) : (first >>= next) s = .error stop t := by
  show EStateM.bind first next s = _
  unfold EStateM.bind
  rw [h]

/-- Stops with an error of the language. -/
def fail {α : Type} (error : LispError) : Run α :=
  throw (.error error)

/-- An attempt as a run, which leaves the store alone. -/
def ofAttempt {α : Type} : Attempt α → Run α
  | .ok result => pure result
  | .error stop => throw stop

/-- Stops with a fault. -/
def fault {α : Type} (fault : Fault) : Run α :=
  throw (.fault fault)

/-- A run inside the native `name`.  A fault in it becomes an error of the
native; every other reason to stop passes through. -/
def inNative {α : Type} (name : String) (run : Run α) : Run α := fun store =>
  match run store with
  | .error (.fault fault) store => .error (.error (.native name fault)) store
  | result => result

/-- The value of a name in the nearest scope that binds it. -/
def lookup (scope : ScopeId) (name : String) : Run Value := do
  match (← get).lookup? scope name with
  | some value => pure value
  | none => fail (.unbound name)

/-- The nearest scope that binds a name. -/
def findOwner (scope : ScopeId) (name : String) : Run ScopeId := do
  match (← get).owner? scope name with
  | some owner => pure owner
  | none => fail (.unbound name)

/-- Binds a name in one scope. -/
def bind (scope : ScopeId) (name : String) (value : Value) : Run Unit :=
  modify (·.bind scope name value)

/-- Gives a new value to a name in the nearest scope that binds it. -/
def assign (scope : ScopeId) (name : String) (value : Value) : Run Unit := do
  match (← get).owner? scope name with
  | some owner => modify (·.bind owner name value)
  | none => fail (.unbound name)

theorem get_eq (s : Store) : (get : Run Store) s = .ok s s := rfl

section

variable {s : Store} {scope owner : ScopeId} {name : String}

theorem lookup_of_some {value : Value} (h : s.lookup? scope name = some value) :
    lookup scope name s = .ok value s := by
  rw [lookup, bind_of_ok (get_eq s), h]
  rfl

theorem lookup_of_none (h : s.lookup? scope name = none) :
    lookup scope name s = .error (.error (.unbound name)) s := by
  rw [lookup, bind_of_ok (get_eq s), h]
  rfl

theorem findOwner_of_some (h : s.owner? scope name = some owner) :
    findOwner scope name s = .ok owner s := by
  rw [findOwner, bind_of_ok (get_eq s), h]
  rfl

theorem findOwner_of_none (h : s.owner? scope name = none) :
    findOwner scope name s = .error (.error (.unbound name)) s := by
  rw [findOwner, bind_of_ok (get_eq s), h]
  rfl

theorem assign_of_some (value : Value) (h : s.owner? scope name = some owner) :
    assign scope name value s = .ok () (s.bind owner name value) := by
  rw [assign, bind_of_ok (get_eq s), h]
  rfl

theorem assign_of_none (value : Value) (h : s.owner? scope name = none) :
    assign scope name value s = .error (.error (.unbound name)) s := by
  rw [assign, bind_of_ok (get_eq s), h]
  rfl

end

/-- A new scope inside another one. -/
def newScope (scope : Scope) : Run ScopeId :=
  modifyGet (·.addScope scope)

/-- Sets identities aside. -/
def reserve (count : Nat) : Run Identity :=
  modifyGet (·.reserve count)

/-- A new pair. -/
def newPair (head tail : Value) : Run Value := do
  return .pair (← reserve 1) head tail

/-- New pairs with the given heads in front of `ending`. -/
def newChain (items : List Value) (ending : Value) : Run Value := do
  return .chain (← reserve items.length) items ending

/-- A new proper list. -/
def newList (items : List Value) : Run Value :=
  newChain items .nil

/-- Prints a text. -/
def print (text : String) : Run Unit :=
  modify (·.print text)

/-- The last value of a row of values computed in order, or `before` if there
is none. -/
def lastOf {α : Type} (before : Value) (step : α → Run Value) (items : List α) : Run Value :=
  items.foldlM (fun _ item => step item) before

/-- A row of values in two parts. -/
theorem lastOf_append {α : Type} (before : Value) (step : α → Run Value) (front rest : List α) :
    lastOf before step (front ++ rest) =
      (do lastOf (← lastOf before step front) step rest) := by
  simp [lastOf]

end Run

/-- Evaluation and invocation one level further down. -/
structure Machine where
  /-- How many levels further down the machine can go. -/
  depth : Nat
  /-- How many rounds a loop may go on for. -/
  rounds : Nat
  /-- Evaluates an expression in a scope. -/
  eval : ScopeId → Value → Run Value
  /-- Invokes a callable value with evaluated arguments. -/
  invoke : Value → List Value → Run Value

namespace Machine

/-- The text of a value. -/
def text (m : Machine) (value : Value) : Run String :=
  Run.ofAttempt (value.text m.depth)

/-- The text of a value for diagnostics. -/
def inspected (m : Machine) (value : Value) : Run String :=
  Run.ofAttempt (value.inspected m.depth)

/-- Evaluates forms in order; the value is that of the last one. -/
def evalBody (m : Machine) (scope : ScopeId) (body : List Value) : Run Value :=
  Run.lastOf .undefined (m.eval scope) body

end Machine

end TinyLisp
