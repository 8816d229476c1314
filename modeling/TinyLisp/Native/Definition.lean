import TinyLisp.Machine

/-!
# Native definitions

A native takes a fixed number of arguments or any number of them, and it words
a wrong number in one of three ways.

There are three groups.

* `ArgumentCount`: the wordings, and the fault of a call with a wrong number of
  arguments.
* `Native`: what a native does with the right number of arguments.
  `Native.call` checks the number first.
* `Hosts`: what the host functions of an embedding program do.
-/

namespace TinyLisp

/-- How a native words a wrong number of arguments. -/
inductive ArgumentCount where
  /-- By naming the parameters that get no argument. -/
  | parameters (callee : String) (names : List String)
  | exactlyOne (callee : String)
  | exactlyTwo (callee : String)

/-- The fault of a call with a wrong number of arguments. -/
def ArgumentCount.fault (count : ArgumentCount) (given : Nat) : Fault :=
  match count with
  | parameters callee names =>
    if names.length < given then .tooManyArguments callee names.length given
    else .missingArguments callee (names.drop given)
  | exactlyOne callee => .notExactlyOne callee given
  | exactlyTwo callee => .notExactlyTwo callee given

/-- What a native does. -/
inductive Native where
  | nullary (count : ArgumentCount) (action : Run Value)
  | unary (count : ArgumentCount) (action : Value → Run Value)
  | binary (count : ArgumentCount) (action : Value → Value → Run Value)
  | ternary (count : ArgumentCount) (action : Value → Value → Value → Run Value)
  | variadic (action : List Value → Run Value)

namespace Native

/-- Calls the native. -/
def call : Native → List Value → Run Value
  | nullary _ action, [] => action
  | unary _ action, [a] => action a
  | binary _ action, [a, b] => action a b
  | ternary _ action, [a, b, c] => action a b c
  | variadic action, arguments => action arguments
  | nullary count _, arguments | unary count _, arguments | binary count _, arguments
  | ternary count _, arguments => Run.fault (count.fault arguments.length)

end Native

/-- What the host functions of an embedding program do, on top of a machine. -/
structure Hosts where
  native : HostFunction → Machine → Native

end TinyLisp
