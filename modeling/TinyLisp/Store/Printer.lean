import TinyLisp.Store
import TinyLisp.Value.Printer

/-!
# Showing scopes

There are two groups.

* `Scope.inspect`: the bindings of one scope, in order.
* `Store.inspectScope` and `Store.inspectChain`: one scope with a hint at the
  scope around it, and the whole chain.
-/

namespace TinyLisp

/-- One binding. -/
def inspectBinding (limit : Nat) (binding : String × Value) : Attempt (List Char) := do
  let value ← binding.2.inspect limit
  return binding.1.toList ++ ": ".toList ++ value

/-- The bindings of a scope in order. -/
def Scope.inspect (limit : Nat) (scope : Scope) : Attempt (List Char) := do
  let texts ← scope.bindings.mapM (inspectBinding limit)
  return '{' :: joinWith ", " texts ++ ['}']

namespace Store

/-- The scope at a place; an empty one where there is none. -/
def scopeAt (s : Store) (place : ScopeId) : Scope :=
  (s.scopes[place]?).getD (.empty none)

/-- A scope, with a hint if there is one around it. -/
def inspectScope (limit : Nat) (s : Store) (place : ScopeId) : Attempt String := do
  let scope := s.scopeAt place
  let text ← scope.inspect limit
  return String.ofList (text ++ (if scope.outer.isSome then " -> ...".toList else []))

/-- A scope and all scopes around it. -/
def inspectChain (limit : Nat) (s : Store) (scope : ScopeId) : Attempt String := do
  let texts ← (s.path scope).mapM fun place => (s.scopeAt place).inspect limit
  return "<Environment chain: " ++ String.ofList (joinWith " -> " texts) ++ ">"

end Store

end TinyLisp
