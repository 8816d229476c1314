import TinyLisp.Number.Notation
import TinyLisp.Text.Quoted
import TinyLisp.Value

/-!
# Printing values

There are four groups.

* `quoteString` and `escapeSymbol`: texts and names as the reader takes them
  back.
* `inspect`: a value for diagnostics, showing how it is built.
* `write`: a value as the language writes it, lists in parentheses.
* `source`: syntax as source text.

Each printer descends into the parts of a value from left to right, and stops
at a part that is deeper than a limit or an integer that is too long.  The
elements of a proper list all stand at one depth, so `write` and `source` take
lists of any length.
-/

namespace TinyLisp

/-! ## Texts and names -/

/-- One character of a string between double marks. -/
def escapeInString (c : Char) : List Char :=
  if c = '\\' ∨ c = '"' then ['\\', c] else [c]

/-- A string literal. -/
def quoteString (text : List Char) : List Char :=
  '"' :: text.flatMap escapeInString ++ ['"']

/-- The characters that end a name or change how it is read on. -/
def isDelimiter (c : Char) : Bool :=
  c == '\\' || c == '"' || c == '(' || c == ')' || c == ' ' || c == '\t' || c == '\n' || c == '\r'

/-- One character of a name. -/
def escapeInSymbol (c : Char) : List Char :=
  if isDelimiter c then ['\\', c] else [c]

/-- A name, with a backslash before each delimiter in it. -/
def escapeSymbol (name : List Char) : List Char :=
  name.flatMap escapeInSymbol

/-- Texts with a separator between each two of them. -/
def joinWith (separator : String) (texts : List (List Char)) : List Char :=
  separator.toList.intercalate texts

/-- A text in parentheses. -/
def parenthesised (text : List Char) : List Char :=
  '(' :: text ++ [')']

namespace Value

/-! ## Diagnostics -/

/-- What diagnostics show of a name, behind the kind of the name. -/
def inspectName (kind name : String) : List Char :=
  (kind ++ "(" ++ Text.quoteForDiagnostics name ++ ")").toList

/-- A value for diagnostics, showing how it is built. -/
def inspect : Nat → Value → Attempt (List Char)
  | 0, _ => .tooDeep
  | limit + 1, value =>
    match value with
    | nil => .ok "()".toList
    | undefined => .ok "#<undefined>".toList
    | bool value => .ok (if value then "True" else "False").toList
    | int value => writeInteger value
    | float value => .ok (Double.inspect value)
    | string text => .ok (Text.quoteForDiagnostics text).toList
    | symbol name => .ok (inspectName "QuotedSymbol" name)
    | identifier name => .ok (inspectName "Symbol" name)
    | form items => do
      let texts ← items.mapM (inspect limit)
      return ('[' :: joinWith ", " texts ++ [']'])
    | embedded _ value => inspect limit value
    | pair _ head tail => do
      let first ← inspect limit head
      let second ← inspect limit tail
      return ("Pair(".toList ++ first ++ ", ".toList ++ second ++ ")".toList)
    | procedure _ parameters _ _ =>
      .ok ("<Procedure (" ++ " ".intercalate parameters ++ ")>").toList
    | native _ name _ => .ok ("<Native " ++ name ++ ">").toList
    | callback .. => .ok ("<Native " ++ callbackName ++ ">").toList

/-! ## The language's own notation -/

/-- A value as the language writes it.  A proper list stands in parentheses;
any other pair shows its two parts with a dot between them. -/
def write : Nat → Value → Attempt (List Char)
  | 0, _ => .tooDeep
  | limit + 1, value =>
    match value with
    | nil => .ok "()".toList
    | undefined => .ok "#<undefined>".toList
    | bool value => .ok (if value then "True" else "False").toList
    | int value => writeInteger value
    | float value => .ok (Double.text value)
    | string text => .ok (quoteString text.toList)
    | symbol name | identifier name => .ok (escapeSymbol name.toList)
    | form items => inspect (limit + 1) (form items)
    | embedded _ value => write limit value
    | pair cell head tail =>
      match (pair cell head tail).toList? with
      | some items => do
        let texts ← items.mapM (write limit)
        return parenthesised (joinWith " " texts)
      | none => do
        let first ← write limit head
        let second ← write limit tail
        return parenthesised (first ++ " . ".toList ++ second)
    | procedure .. => .ok "#<procedure>".toList
    | native .. | callback .. => .ok "#<native>".toList

/-- Syntax as source text. -/
def source : Nat → Value → Attempt (List Char)
  | 0, _ => .tooDeep
  | limit + 1, value =>
    match value with
    | form items => do
      let texts ← items.mapM (source limit)
      return parenthesised (joinWith " " texts)
    | value => write (limit + 1) value

/-- `write` as a string. -/
def text (limit : Nat) (value : Value) : Attempt String :=
  (value.write limit).map String.ofList

/-- `inspect` as a string. -/
def inspected (limit : Nat) (value : Value) : Attempt String :=
  (value.inspect limit).map String.ofList

end Value

end TinyLisp
