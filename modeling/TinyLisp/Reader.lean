import TinyLisp.Error
import TinyLisp.Number.Numeral
import TinyLisp.Token
import TinyLisp.Value

/-!
# Reading

There are three groups.

* `readAtom`: the number or the name that an atom is.
* `readOne`: the first expression of a row of tokens, with the tokens that are
  left.  The forms that are open are kept on a stack, so reading is one walk
  along the tokens.  `length_readOne` says that it gets on.
* `readAll`: the expressions of a row of tokens, and what ended the reading
  when it was not the end of the tokens.

Forms may be nested no deeper than a limit.
-/

namespace TinyLisp

/-- What an atom is: a number when it is a numeral, and otherwise a name. -/
def readAtom (text : String) : Value :=
  match parseNumber? text.toList with
  | some number => .float number
  | none => .identifier (trimmed text)

/-- Reads on inside open forms.  `items` are the items of the innermost one and
`outer` those of the forms around it, from the inside out; each row of items
has its last item first.  `room` more forms may be opened. -/
def readInside (room : Nat) (items : List Value) (outer : List (List Value)) :
    List Token → Except Stop Value × List Token
  | [] => (.error (.error (.unreadable .unclosedForm)), [])
  | .closing :: rest =>
    match outer with
    | [] => (.ok (.form items.reverse), rest)
    | around :: outer => readInside (room + 1) (.form items.reverse :: around) outer rest
  | .opening :: rest =>
    match room with
    | 0 => (.error .tooDeep, rest)
    | room + 1 => readInside room [] (items :: outer) rest
  | .string text :: rest => readInside room (.string text :: items) outer rest
  | .atom text :: rest => readInside room (readAtom text :: items) outer rest

/-- The first expression and the tokens behind it.  A token that cannot start
an expression is used up all the same. -/
def readOne (limit : Nat) : List Token → Except Stop Value × List Token
  | [] => (.error (.error (.unreadable .noExpression)), [])
  | .closing :: rest => (.error (.error (.unreadable .strayClose)), rest)
  | .opening :: rest => readInside limit [] [] rest
  | .string text :: rest => (.ok (.string text), rest)
  | .atom text :: rest => (.ok (readAtom text), rest)

theorem length_readInside (room : Nat) (items : List Value) (outer : List (List Value))
    (tokens : List Token) :
    (readInside room items outer tokens).2.length ≤ tokens.length := by
  fun_induction readInside room items outer tokens <;> simp_all <;> omega

/-- Reading uses up at least one token. -/
theorem length_readOne (limit : Nat) {tokens : List Token} (h : tokens ≠ []) :
    (readOne limit tokens).2.length < tokens.length := by
  match tokens with
  | [] => exact absurd rfl h
  | .closing :: rest | .string text :: rest | .atom text :: rest => simp [readOne]
  | .opening :: rest =>
    have := length_readInside limit [] [] rest
    simp [readOne]
    omega

/-- Reads at most `count` expressions. -/
def readMany (limit : Nat) : Nat → List Token → List Value × Option Stop
  | 0, _ | _, [] => ([], none)
  | count + 1, token :: tokens =>
    match readOne limit (token :: tokens) with
    | (.error stop, _) => ([], some stop)
    | (.ok expression, rest) =>
      let (expressions, stop) := readMany limit count rest
      (expression :: expressions, stop)

/-- The expressions at the front of the tokens, and what ended the reading when
it was not the end of the tokens.  There are no more expressions than tokens. -/
def readAll (limit : Nat) (tokens : List Token) : List Value × Option Stop :=
  readMany limit tokens.length tokens

end TinyLisp
