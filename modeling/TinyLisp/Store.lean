import TinyLisp.Value

/-!
# Scopes and the store

A scope binds names and refers to the scope around it.  All scopes of an
evaluation live in one store, so a closure that holds the place of a scope
sees every later change of it.

There are four groups.

* `Scope`: bindings in the order in which their names were first bound.
* `Store`: the scopes, the next identity, the printed text and the state of
  the random numbers.
* Searching: `Store.path` is the chain of scopes that a search passes, nearest
  first.  `owner?`, `lookup?`, `binds` and `rootOf` read it.
* Changing: `bind` writes to one scope and `addScope` appends one.
  `Store.local?_bind` says that a binding is all that `bind` changes.
-/

namespace TinyLisp

/-- The bindings with `name` bound to `value`.  A name that is bound keeps its
place and a new one comes last. -/
def bindName (name : String) (value : Value) : List (String × Value) → List (String × Value)
  | [] => [(name, value)]
  | (other, old) :: rest =>
    if other = name then (name, value) :: rest else (other, old) :: bindName name value rest

/-- Binding a name changes what is found under it and nothing else. -/
theorem lookup_bindName (name other : String) (value : Value) (bindings : List (String × Value)) :
    (bindName name value bindings).lookup other =
      if other = name then some value else bindings.lookup other := by
  induction bindings with
  | nil =>
    by_cases h : other = name
    · simp [bindName, h]
    · have hf : (other == name) = false := by simpa using h
      simp [bindName, List.lookup_cons, h, hf]
  | cons binding rest ih =>
    obtain ⟨bound, old⟩ := binding
    by_cases hb : bound = name
    · subst hb
      by_cases h : other = bound
      · simp [bindName, h]
      · have hf : (other == bound) = false := by simpa using h
        simp [bindName, List.lookup_cons, h, hf]
    · simp only [bindName, hb, if_false, List.lookup_cons, ih]
      by_cases h : other = name
      · have hf : (other == bound) = false := by simpa [h] using Ne.symm hb
        simp [h ▸ hf, h]
      · simp [h]

/-- Names with their values, and the scope around. -/
structure Scope where
  outer : Option ScopeId
  bindings : List (String × Value)
deriving Inhabited

namespace Scope

/-- A scope without bindings. -/
def empty (outer : Option ScopeId) : Scope :=
  ⟨outer, []⟩

/-- The value that the scope itself binds to a name. -/
def local? (scope : Scope) (name : String) : Option Value :=
  scope.bindings.lookup name

/-- The names of a scope in the order in which they were first bound. -/
def names (scope : Scope) : List String :=
  scope.bindings.map (·.1)

/-- The scope with `name` bound to `value`. -/
def bind (scope : Scope) (name : String) (value : Value) : Scope :=
  { scope with bindings := bindName name value scope.bindings }

@[simp] theorem local?_bind (scope : Scope) (name other : String) (value : Value) :
    (scope.bind name value).local? other =
      if other = name then some value else scope.local? other :=
  lookup_bindName name other value scope.bindings

@[simp] theorem outer_bind (scope : Scope) (name : String) (value : Value) :
    (scope.bind name value).outer = scope.outer := rfl

/-- The scope after binding a row of names one after the other. -/
def bindAll (scope : Scope) (bindings : List (String × Value)) : Scope :=
  bindings.foldl (fun scope (name, value) => scope.bind name value) scope

end Scope

/-- All that evaluation can change. -/
structure Store where
  scopes : Array Scope
  /-- The outermost scope of the session. -/
  root : ScopeId
  /-- No cell, procedure or native has this identity or a later one. -/
  nextIdentity : Identity
  /-- The text that has been printed. -/
  output : String
  /-- The state of the random numbers. -/
  seed : UInt64

namespace Store

/-- A store without scopes. -/
def empty : Store :=
  ⟨#[], 0, 0, "", 0⟩

/-! ## Searching -/

/-- The first `count` scopes of the chain that starts at `scope`. -/
def pathWithin (s : Store) : Nat → ScopeId → List ScopeId
  | 0, _ => []
  | count + 1, scope =>
    match s.scopes[scope]? with
    | none => []
    | some { outer := none, .. } => [scope]
    | some { outer := some outer, .. } => scope :: s.pathWithin count outer

/-- The chain of scopes from `scope` outwards.  A chain that does not run in a
circle has no more scopes than the store. -/
def path (s : Store) (scope : ScopeId) : List ScopeId :=
  s.pathWithin s.scopes.size scope

/-- The value that one scope binds to a name. -/
def local? (s : Store) (scope : ScopeId) (name : String) : Option Value :=
  s.scopes[scope]?.bind (·.local? name)

/-- The nearest scope of the chain that binds a name. -/
def owner? (s : Store) (scope : ScopeId) (name : String) : Option ScopeId :=
  (s.path scope).find? fun place => (s.local? place name).isSome

/-- The value of a name in the nearest scope that binds it. -/
def lookup? (s : Store) (scope : ScopeId) (name : String) : Option Value :=
  (s.path scope).findSome? fun place => s.local? place name

/-- Whether any scope of the chain binds a name. -/
def binds (s : Store) (scope : ScopeId) (name : String) : Bool :=
  (s.path scope).any fun place => (s.local? place name).isSome

/-- The outermost scope of the chain. -/
def rootOf (s : Store) (scope : ScopeId) : ScopeId :=
  (s.path scope).getLastD scope

/-! ## Changing -/

/-- Binds a name in one scope. -/
def bind (s : Store) (scope : ScopeId) (name : String) (value : Value) : Store :=
  { s with scopes := s.scopes.modify scope (·.bind name value) }

@[simp] theorem size_scopes_bind (s : Store) (scope : ScopeId) (name : String) (value : Value) :
    (s.bind scope name value).scopes.size = s.scopes.size := by
  simp [bind]

/-- Binding a name in one scope changes that one binding. -/
theorem local?_bind (s : Store) {scope : ScopeId} (h : scope < s.scopes.size) (place : ScopeId)
    (name other : String) (value : Value) :
    (s.bind scope name value).local? place other =
      if place = scope ∧ other = name then some value else s.local? place other := by
  by_cases hp : place = scope
  · subst hp
    by_cases ho : other = name <;> simp [local?, bind, h, ho, Array.getElem_modify]
  · simp [local?, bind, Array.getElem?_modify, hp, Ne.symm hp]

/-- Appends a scope and tells its place. -/
def addScope (s : Store) (scope : Scope) : ScopeId × Store :=
  (s.scopes.size, { s with scopes := s.scopes.push scope })

/-- Sets `count` identities aside and tells the first of them. -/
def reserve (s : Store) (count : Nat) : Identity × Store :=
  (s.nextIdentity, { s with nextIdentity := s.nextIdentity + count })

/-- Appends to the printed text. -/
def print (s : Store) (text : String) : Store :=
  { s with output := s.output ++ text }

/-- Takes the printed text out of the store. -/
def takeOutput (s : Store) : String × Store :=
  (s.output, { s with output := "" })

/-- The next state of the random numbers. -/
def nextSeed (seed : UInt64) : UInt64 :=
  seed * 6364136223846793005 + 1442695040888963407

/-- A random number from zero up to but not including one. -/
def draw (s : Store) : Float × Store :=
  let seed := nextSeed s.seed
  ((seed >>> 11).toFloat / 9007199254740992.0, { s with seed := seed })

end Store

end TinyLisp
