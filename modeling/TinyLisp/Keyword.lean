/-!
# Keywords

Nine names have a meaning of their own at the head of a form, whatever is
bound to them.  `Keyword.ofName?_name` says that each keyword is found under
its name.
-/

namespace TinyLisp

/-- The special forms. -/
inductive Keyword where
  | conditional | definition | binding | abstraction | sequence | guard | loop | assignment
  | quotation
deriving DecidableEq, Repr

namespace Keyword

/-- The name at the head of a form. -/
def name : Keyword → String
  | conditional => "if"
  | definition => "define"
  | binding => "let"
  | abstraction => "lambda"
  | sequence => "begin"
  | guard => "when"
  | loop => "while"
  | assignment => "set!"
  | quotation => "quote"

/-- All special forms. -/
def all : List Keyword :=
  [conditional, definition, binding, abstraction, sequence, guard, loop, assignment, quotation]

/-- The special form that a name stands for at the head of a form. -/
def ofName? (name : String) : Option Keyword :=
  all.find? fun keyword => keyword.name = name

/-- Every keyword is found under its name. -/
@[simp] theorem ofName?_name (keyword : Keyword) : ofName? keyword.name = some keyword := by
  cases keyword <;> decide

end Keyword

end TinyLisp
