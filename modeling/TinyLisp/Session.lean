import TinyLisp.Evaluator
import TinyLisp.Native.Host

/-!
# Sessions

A session owns a root scope, the host functions that were registered, and a
prelude.  Resetting a session gives it a fresh root scope with the standard
natives, the registered functions and the prelude, in this order.

There are four groups.

* `installStandard`: a root scope with the standard natives.
* `Registration`, `Registered` and `Prelude`: what a root scope gets besides.
* `Session` and `Interaction`: sessions, and computations on them, which keep
  the session when they fail.
* The operations of a session.
-/

namespace TinyLisp

/-! ## Root scopes -/

/-- The standard natives in front of the constant, with their names. -/
def standardPrimitives : List (String × Primitive) :=
  [("abs", .absolute), ("max", .maximum), ("min", .minimum), ("sqrt", .squareRoot),
    ("sin", .sine), ("cos", .cosine), ("pow", .power), ("expt", .power), ("round", .round),
    ("floor", .floor), ("ceil", .ceiling), ("deg-to-rad", .radians), ("random", .random),
    ("+", .add), ("-", .subtract), ("*", .multiply), ("/", .divide), ("modulo", .modulo),
    ("mod", .floorModulo), ("negative", .negate),
    ("=", .numericEqual), ("<", .less), (">", .greater), ("<=", .lessEqual),
    (">=", .greaterEqual),
    ("eq?", .same), ("equal?", .equal), ("not", .not), ("null?", .isNull),
    ("number?", .isNumber), ("string?", .isString), ("symbol?", .isSymbol),
    ("procedure?", .isProcedure), ("list?", .isList), ("pair?", .isPair),
    ("cons", .cons), ("car", .head), ("cdr", .tail), ("first", .head), ("rest", .tail),
    ("list", .list), ("length", .length), ("list-ref", .listRef), ("append", .append),
    ("range", .range), ("sum", .sum), ("map", .map), ("filter", .filter), ("reduce", .reduce),
    ("reverse", .reverse), ("last", .last), ("for-each", .forEach), ("apply", .apply),
    ("string-append", .stringAppend), ("number->string", .numberToString),
    ("string->number", .stringToNumber), ("callback", .makeCallback)]

/-- Binds a new native in a scope, to the name `bound` and with the name `name`
of its own. -/
def bindNative (scope : ScopeId) (bound name : String) (operation : Operation) : Run Unit := do
  let native := Value.native (← Run.reserve 1) name operation
  Run.bind scope bound native

/-- Binds the standard natives and the constant in a scope. -/
def bindStandard (scope : ScopeId) : Run Unit := do
  standardPrimitives.forM fun (name, primitive) =>
    bindNative scope name name (.primitive primitive)
  Run.bind scope "pi" (.float Arithmetic.pi)
  bindNative scope "print" "print" (.primitive .print)
  bindNative scope "set-global" "set-global" (.setGlobal scope)

/-- A new scope without a scope around it, which becomes the root. -/
def newRoot : Run ScopeId := do
  let root ← Run.newScope (.empty none)
  modify fun store => { store with root := root }
  return root

/-- A new root with the standard natives. -/
def installStandard : Run ScopeId := do
  let root ← newRoot
  bindStandard root
  return root

/-! ## What a session adds -/

/-- A host function that is registered under a name. -/
structure Registration where
  name : String
  function : HostFunction
  /-- Whether the native was made before and has its own name. -/
  wrapped : Bool
deriving DecidableEq, Repr

/-- The name of the native.  The empty name gives way to the function's own. -/
def Registration.nativeName (registration : Registration) : String :=
  if registration.wrapped || registration.name = "" then registration.function.ownName
  else registration.name

/-- A registration with an identity that is set aside for it.  A native that was made before has
this identity in every root; otherwise each root gets a native of its own. -/
structure Registered extends Registration where
  identity : Identity
deriving DecidableEq, Repr

/-- The row with a new entry.  One under the same name is replaced in its place. -/
def putNamed {α : Type} (name : α → String) (new : α) : List α → List α
  | [] => [new]
  | old :: rest => if name old = name new then new :: rest else old :: putNamed name new rest

namespace Registered

/-- Binds the native of a registration. -/
def bindIn (scope : ScopeId) (entry : Registered) : Run Unit :=
  if entry.wrapped then
    Run.bind scope entry.name (.native entry.identity entry.nativeName (.host entry.function))
  else bindNative scope entry.name entry.nativeName (.host entry.function)

/-- Adds an entry to those of a session. -/
def add : Registered → List Registered → List Registered :=
  putNamed (·.name)

/-- The entries of a new session, with the first identities of all. -/
def row (registrations : List Registration) : List Registered :=
  registrations.zipIdx.map fun (registration, identity) => ⟨registration, identity⟩

end Registered

namespace Registration

/-- Sets the identity of an entry aside. -/
def enter (registration : Registration) : Run Registered :=
  return ⟨registration, ← Run.reserve 1⟩

/-- Binds the native of a registration that no session keeps. -/
def bindIn (scope : ScopeId) (registration : Registration) : Run Unit := do
  (← registration.enter).bindIn scope

/-- Adds a registration to those of a session that is to be made. -/
def add : Registration → List Registration → List Registration :=
  putNamed (·.name)

end Registration

/-- The code that a root scope starts with. -/
inductive Prelude where
  | none
  | source (text : String)
  /-- Files in order; nothing stands for one that is missing. -/
  | files (contents : List (Option String))
deriving DecidableEq, Repr

/-- Evaluates files in order.  The first missing one ends the loading, and what
was loaded before it stays. -/
def loadFiles (m : Machine) (root : ScopeId) : List (Option String) → Run Unit
  | [] | none :: _ => pure ()
  | some source :: rest => do
    let _ ← m.evalText root source
    loadFiles m root rest

/-- Evaluates a prelude. -/
def Prelude.load (m : Machine) (root : ScopeId) : Prelude → Run Unit
  | none => pure ()
  | source text => do let _ ← m.evalText root text
  | files contents => loadFiles m root contents

/-! ## Sessions -/

/-- A session. -/
structure Session where
  prelude : Prelude
  registrations : List Registered
  store : Store

/-- A computation on a session. -/
abbrev Interaction := EStateM Stop Session

namespace Interaction

/-- A run on the store of the session. -/
def onStore {α : Type} (run : Run α) : Interaction α := fun session =>
  match run session.store with
  | .ok result store => .ok result { session with store := store }
  | .error stop store => .error stop { session with store := store }

/-- A run that needs the root scope of the session. -/
def onRoot {α : Type} (run : ScopeId → Run α) : Interaction α :=
  onStore do run (← get).root

end Interaction

namespace Session

/-- A session before its first root scope. -/
def new (prelude : Prelude) (registrations : List Registration) : Session :=
  ⟨prelude, Registered.row registrations, (Store.empty.reserve registrations.length).2⟩

/-- A fresh root scope. -/
def freshRoot (m : Machine) (prelude : Prelude) (registrations : List Registered) :
    Run Unit := do
  let root ← installStandard
  registrations.forM (·.bindIn root)
  prelude.load m root

/-- Drops all bindings and starts again. -/
def reset (m : Machine) : Interaction Unit := do
  let session ← get
  Interaction.onStore (freshRoot m session.prelude session.registrations)

/-- Registers a host function, now and for every reset. -/
def register (registration : Registration) : Interaction Unit := do
  let entry ← Interaction.onStore registration.enter
  modify fun session => { session with registrations := entry.add session.registrations }
  Interaction.onRoot fun root => entry.bindIn root

/-- Evaluates a source in the root scope. -/
def eval (m : Machine) (source : String) : Interaction Value :=
  Interaction.onRoot fun root => m.evalText root source

/-- Evaluates a source and writes the value. -/
def evalToText (m : Machine) (source : String) : Interaction String := do
  let value ← eval m source
  Interaction.onStore (m.text value)

/-- The value that a name has in the root scope. -/
def lookup (name : String) : Interaction Value :=
  Interaction.onRoot fun root => Run.lookup root name

/-- Binds a name in the root scope. -/
def bind (name : String) (value : Value) : Interaction Unit :=
  Interaction.onRoot fun root => Run.bind root name value

/-- The text printed since it was last taken. -/
def takeOutput : Interaction String :=
  Interaction.onStore (modifyGet Store.takeOutput)

end Session

/-! ## The usual machine -/

/-- How deep an evaluation goes. -/
def usualDepth : Nat := 1000

/-- How many rounds a loop goes on for. -/
def usualRounds : Nat := 4611686018427387904

/-- The machine that sessions run on. -/
def usualMachine : Machine :=
  .ofDepth usualHosts usualRounds usualDepth

end TinyLisp
