import TinyLisp.Keyword
import TinyLisp.Value

/-!
# Errors

There are four groups.

* `Fault`: what goes wrong in a computation before the language takes notice,
  in one of four categories.
* `TypeProblem`: arguments of a kind that a native does not take.
* `LispError`: the errors of the language.  A fault becomes the error `native`
  of the innermost native around it.  The error `notCallable` holds the value
  that was refused.
* `Stop`: why an evaluation ends without a value.  Running out of depth is no
  error of the language, and no native makes it one.
-/

namespace TinyLisp

/-! ## Faults -/

/-- The four categories of faults. -/
inductive FaultCategory where
  | kind | value | zeroDivision | overflow
deriving DecidableEq, Repr

/-- What goes wrong in a computation. -/
inductive Fault where
  | tooManyArguments (callee : String) (allowed given : Nat)
  | missingArguments (callee : String) (parameters : List String)
  | notExactlyOne (callee : String) (given : Nat)
  | notExactlyTwo (callee : String) (given : Nat)
  | noCandidate (callee : String)
  | emptySequence (callee : String)
  | unordered (operator left right : String)
  | notIterable (kind : String)
  | notText (kind : String)
  | badOperand (operation kind : String)
  | notReal (kind : String)
  | unsupported (operator left right : String)
  | onlyConcatenates (own other : String)
  | repeatedByFraction
  | noInteger (kind : String)
  | noIntegerLiteral (shown : String)
  | longIntegerLiteral (digits : Nat)
  /-- An integer has too many digits to be written. -/
  | longInteger
  /-- A member of a row of strings is no string. -/
  | noStringAt (index : Nat) (kind : String)
  | integerDivisionByZero
  | floatDivisionByZero
  | outsideDomain
  | outsideRange
  | infiniteToInteger
  | nanToInteger
  | integerTooLarge
  | quotientTooLarge
  | raised (text : String)
deriving DecidableEq, Repr

/-- Names in quotation marks, joined as in a sentence. -/
def enumerate (names : List String) : String :=
  match names.map fun name => "'" ++ name ++ "'" with
  | [] => ""
  | [only] => only
  | [first, second] => first ++ " and " ++ second
  | quoted => ", ".intercalate quoted.dropLast ++ ", and " ++ quoted.getLastD ""

namespace Fault

/-- The category of a fault. -/
def category : Fault → FaultCategory
  | tooManyArguments .. | missingArguments .. | notExactlyOne .. | notExactlyTwo ..
  | noCandidate .. | unordered .. | notIterable .. | notText .. | badOperand .. | notReal ..
  | unsupported .. | onlyConcatenates .. | repeatedByFraction | noInteger .. | noStringAt .. =>
    .kind
  | emptySequence .. | noIntegerLiteral .. | longIntegerLiteral .. | longInteger
  | outsideDomain | nanToInteger | raised .. => .value
  | integerDivisionByZero | floatDivisionByZero => .zeroDivision
  | outsideRange | infiniteToInteger | integerTooLarge | quotientTooLarge => .overflow

/-- The text of a fault. -/
def message : Fault → String
  | tooManyArguments callee allowed given =>
    callee ++ "() takes " ++ toString allowed ++ " positional argument" ++
      (if allowed = 1 then "" else "s") ++ " but " ++ toString given ++
      (if given = 1 then " was given" else " were given")
  | missingArguments callee parameters =>
    callee ++ "() missing " ++ toString parameters.length ++ " required positional argument" ++
      (if parameters.length = 1 then "" else "s") ++ ": " ++ enumerate parameters
  | notExactlyOne callee given =>
    callee ++ "() takes exactly one argument (" ++ toString given ++ " given)"
  | notExactlyTwo callee given => callee ++ " expected 2 arguments, got " ++ toString given
  | noCandidate callee => callee ++ " expected at least 1 argument, got 0"
  | emptySequence callee => callee ++ "() arg is an empty sequence"
  | unordered operator left right =>
    "'" ++ operator ++ "' not supported between instances of '" ++ left ++ "' and '" ++ right ++ "'"
  | notIterable kind => "'" ++ kind ++ "' object is not iterable"
  | notText kind => "'in <string>' requires string as left operand, not " ++ kind
  | badOperand operation kind => "bad operand type for " ++ operation ++ ": '" ++ kind ++ "'"
  | notReal kind => "must be real number, not " ++ kind
  | unsupported operator left right =>
    "unsupported operand type(s) for " ++ operator ++ ": '" ++ left ++ "' and '" ++ right ++ "'"
  | onlyConcatenates own other =>
    "can only concatenate " ++ own ++ " (not \"" ++ other ++ "\") to " ++ own
  | repeatedByFraction => "can't multiply sequence by non-int of type 'float'"
  | noInteger kind =>
    "int() argument must be a string, a bytes-like object or a real number, not '" ++ kind ++ "'"
  | noIntegerLiteral shown => "invalid literal for int() with base 10: " ++ shown
  | longIntegerLiteral digits =>
    "Exceeds the limit (4300 digits) for integer string conversion: value has " ++
      toString digits ++ " digits; use sys.set_int_max_str_digits() to increase the limit"
  | longInteger =>
    "Exceeds the limit (4300 digits) for integer string conversion; " ++
      "use sys.set_int_max_str_digits() to increase the limit"
  | noStringAt index kind =>
    "sequence item " ++ toString index ++ ": expected str instance, " ++ kind ++ " found"
  | integerDivisionByZero => "division by zero"
  | floatDivisionByZero => "float division by zero"
  | outsideDomain => "math domain error"
  | outsideRange => "math range error"
  | infiniteToInteger => "cannot convert float infinity to integer"
  | nanToInteger => "cannot convert float NaN to integer"
  | integerTooLarge => "int too large to convert to float"
  | quotientTooLarge => "integer division result too large for a float"
  | raised text => text

end Fault

/-! ## Errors of the language -/

/-- Why source cannot be read. -/
inductive SyntaxProblem where
  /-- No expression starts where one is asked for. -/
  | noExpression
  /-- The source ends inside a form. -/
  | unclosedForm
  /-- A closing parenthesis stands where an expression is asked for. -/
  | strayClose
deriving DecidableEq, Repr

/-- The text of a syntax problem. -/
def SyntaxProblem.message : SyntaxProblem → String
  | noExpression => "unexpected EOF"
  | unclosedForm => "unexpected EOF while reading list"
  | strayClose => "unexpected )"

/-- Arguments of a kind that a native does not take.  Each holds the text of
the argument that is at fault. -/
inductive TypeProblem where
  | notProperList
  | notList (shown : String)
  | notPair (callee shown : String)
  | notProcedure (shown : String)
  | notNumbers (callee shown : String)
  | notString (callee shown : String)
  | notNumeral (shown : String)
  | outOfBounds (shown : String)
  | lastOfEmpty
  | notName (callee shown : String)
  | refused (text : String)
deriving DecidableEq, Repr

/-- The text of a type problem. -/
def TypeProblem.message : TypeProblem → String
  | notProperList => "Expected a proper list"
  | notList shown => "Expected a list, got " ++ shown
  | notPair callee shown => callee ++ " expects a pair, got " ++ shown
  | notProcedure shown => "Expected a procedure, got " ++ shown
  | notNumbers callee shown => "All arguments to " ++ callee ++ " must be numbers, got " ++ shown
  | notString callee shown => callee ++ " expects a string, got " ++ shown
  | notNumeral shown => "Not a number: " ++ shown
  | outOfBounds shown => "Index out of bounds: " ++ shown
  | lastOfEmpty => "last expects a non-empty list"
  | notName callee shown => callee ++ " expects a name, got " ++ shown
  | refused text => text

/-- What is wrong with the shape of a special form. -/
inductive ShapeProblem where
  | branches
  | noTarget
  | unnamedProcedure
  | badTarget (shown : String)
  | definitionOperands
  | noBindings
  | badBinding (shown : String)
  | noParameters
  | badParameters (shown : String)
  | badParameter (shown : String)
  | noTest
  | assignmentOperands
  | badVariable (shown : String)
  | quotationOperands
deriving DecidableEq, Repr

/-- The text of a shape problem. -/
def ShapeProblem.message : ShapeProblem → String
  | branches => "requires a test, a consequent and an optional alternative"
  | noTarget => "requires a name"
  | unnamedProcedure => "procedure name must be a symbol"
  | badTarget shown => "cannot define " ++ shown
  | definitionOperands => "requires exactly 2 arguments: (define name value)"
  | noBindings => "requires a binding list"
  | badBinding shown => "malformed binding " ++ shown
  | noParameters => "requires at least a parameter list"
  | badParameters shown => "parameter list expected, got " ++ shown
  | badParameter shown => "parameter must be a symbol, got " ++ shown
  | noTest => "requires a test expression"
  | assignmentOperands => "requires exactly 2 arguments: (set! var value)"
  | badVariable shown => "first argument must be a symbol, got " ++ shown
  | quotationOperands => "expects exactly 1 argument"

/-- A value at the head of a form that cannot be invoked, and its text. -/
structure Refused where
  value : Value
  shown : String

/-- The errors of the language. -/
inductive LispError where
  | unbound (name : String)
  | unreadable (problem : SyntaxProblem)
  | notCallable (refused : Refused)
  | invalidForm (keyword : Keyword) (problem : ShapeProblem)
  | wrongType (problem : TypeProblem)
  | noOperand (callee : String)
  | native (name : String) (fault : Fault)

/-- The text of an error. -/
def LispError.message : LispError → String
  | unbound name => "Unbound variable: " ++ name
  | unreadable problem => problem.message
  | notCallable refused => "Not a procedure: " ++ refused.shown
  | invalidForm keyword problem => keyword.name ++ ": " ++ problem.message
  | wrongType problem => problem.message
  | noOperand callee => callee ++ " requires at least 1 argument"
  | native name fault => name ++ ": " ++ fault.message

/-- Why an evaluation ends without a value. -/
inductive Stop where
  | error (error : LispError)
  /-- A fault that is not inside any native. -/
  | fault (fault : Fault)
  /-- The recursion went deeper than the limit. -/
  | tooDeep
  /-- A loop went on for more rounds than the limit. -/
  | tooLong

/-- The text of a reason to stop. -/
def Stop.message : Stop → String
  | error cause => cause.message
  | fault cause => cause.message
  | tooDeep => "maximum recursion depth exceeded"
  | tooLong => "loop limit exceeded"

end TinyLisp
