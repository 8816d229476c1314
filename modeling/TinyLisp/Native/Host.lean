import TinyLisp.Native.Definition
import TinyLisp.Native.Sequence
import TinyLisp.Native.Standard
import TinyLisp.SourceText
import TinyLisp.Token.Row

/-!
# Host functions

The functions that the usual sessions offer for registration.  They show every way
in which a host function can take part in an evaluation: taking any number of
arguments, having no result, failing by a fault of its own and by an error of the
language, and evaluating a text again.

There are three groups.

* The functions by their labels.
* What they do.
* `usualHosts` puts both together.
-/

namespace TinyLisp

namespace HostFunction

/-! ## Labels -/

def twice : HostFunction := ⟨0, "twice", false⟩
def unnamedTwice : HostFunction := ⟨1, "native", false⟩
def nothing : HostFunction := ⟨2, "nothing", false⟩
def countArguments : HostFunction := ⟨3, "nargs", false⟩
def onePair : HostFunction := ⟨4, "pair12", false⟩
def truth : HostFunction := ⟨5, "truth", false⟩
def fail : HostFunction := ⟨6, "boom", false⟩
def refuse : HostFunction := ⟨7, "refuse", false⟩
def truncate : HostFunction := ⟨8, "trunc", false⟩
def evalText : HostFunction := ⟨9, "eval_string", true⟩

/-! ## Actions -/

/-- A number or a text two times over. -/
def twiceOf (value : Value) : Attempt Value :=
  match value, Number.ofReal? value with
  | _, some (.int n) => .ok (.int (2 * n))
  | _, some (.float x) => .ok (.float (2.0 * x))
  | .string text, none => .ok (.string (text ++ text))
  | .form items, none => .ok (.form (items ++ items))
  | other, none => .fault (.unsupported "*" "int" other.kind)

/-- The tokens of a source: of a string, or of a list of strings. -/
def tokensOf (source : Value) : Attempt (List Token) := do
  match source with
  | .string text => return tokenize text
  | .nil => return []
  | .form items => (← RowScan.start.scan items).finish
  | .pair .. =>
    let scanned ← RowScan.start.scan source.spine.1
    if source.isProperList then scanned.finish else .wrongType .notProperList
  | other => .fault (.notIterable other.kind)

/-- Evaluates a source in the root scope of the session. -/
def evalSource (m : Machine) (source : Value) : Run Value := do
  m.evalTokens (← get).root (← Run.ofAttempt (tokensOf source))

end HostFunction

/-- The host functions of the usual sessions.  A function with any other label has no
result. -/
def usualHosts : Hosts where
  native function m :=
    if function = .twice ∨ function = .unnamedTwice then
      attemptOne (.parameters "twice" ["x"]) HostFunction.twiceOf
    else if function = .countArguments then
      .variadic fun arguments => pure (.int arguments.length)
    else if function = .onePair then
      .nullary (.parameters "pair12" []) (Run.newList [.int 1, .int 2])
    else if function = .truth then .nullary (.parameters "truth" []) (pure (.bool true))
    else if function = .fail then .variadic fun _ => Run.fault (.raised "boom")
    else if function = .refuse then
      .variadic fun _ => Run.fail (.wrongType (.refused "host says no"))
    else if function = .truncate then
      attemptOne (.parameters "trunc" ["x"]) fun a => return .int (← truncated a)
    else if function = .evalText then
      .unary (.parameters "eval_string" ["code"]) (HostFunction.evalSource m)
    else .variadic fun _ => pure .undefined

end TinyLisp
