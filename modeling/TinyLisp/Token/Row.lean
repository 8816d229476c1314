import TinyLisp.Attempt
import TinyLisp.Token
import TinyLisp.Value

/-!
# Rows of strings as source

A row of strings is source, too.  It is scanned as if each string were a single
character, whatever its length.

There are two groups.

* `RowScan`: the state of a scan.  `RowScan.step` takes one member of the row
  and `RowScan.finish` ends the scan.
* Members that are no strings.  Outside string literals such a member is a
  fault at once, and inside one, or behind a backslash, when the token ends.
-/

namespace TinyLisp

/-- The state of a scan of a row. -/
structure RowScan where
  lexer : Lexer
  /-- How many members of the row the pending token has. -/
  members : Nat
  /-- The fault of the first of them that is no string. -/
  stray : Option Fault

namespace RowScan

/-- The state before the first member. -/
def start : RowScan :=
  ⟨.start, 0, none⟩

/-- Whether a string separates tokens: it is a piece of the row of separators. -/
def isSeparatorRun (text : List Char) : Bool :=
  (List.range Lexer.separators.length).any fun n =>
    text.isPrefixOf (Lexer.separators.drop n)

/-- Whether a string ends the pending token. -/
def endsToken (s : Lexer) (text : List Char) : Bool :=
  text == ['"'] || (!s.inString && (text == ['('] || text == [')'] || isSeparatorRun text))

/-- The state of the lexer behind a string that ends the pending token. -/
def passEnd (s : Lexer) : List Char → Lexer
  | [c] => s.step c
  | _ => s.flush

/-- Adds a member to the pending token. -/
def add (s : RowScan) : Value → RowScan
  | .string text =>
    { s with
      lexer :=
        { s.lexer with pending := text.toList.reverse ++ s.lexer.pending, escaped := false }
      members := s.members + 1 }
  | other =>
    { lexer := { s.lexer with escaped := false }
      members := s.members + 1
      stray := s.stray.or (some (.noStringAt s.members other.kind)) }

/-- Puts the pending token together and goes on in the state `next`. -/
def endToken (s : RowScan) (next : Lexer) : Attempt RowScan :=
  match s.stray with
  | some fault => .fault fault
  | none => .ok ⟨next, 0, none⟩

/-- Takes one member. -/
def step (s : RowScan) (member : Value) : Attempt RowScan :=
  if s.lexer.escaped then .ok (s.add member)
  else
    match member with
    | .string text =>
      if text = "\\" then .ok { s with lexer := s.lexer.step '\\' }
      else if endsToken s.lexer text.toList then s.endToken (passEnd s.lexer text.toList)
      else .ok (s.add member)
    | other => if s.lexer.inString then .ok (s.add other) else .fault (.notText other.kind)

/-- Takes a row of members. -/
def scan (s : RowScan) (row : List Value) : Attempt RowScan :=
  row.foldlM step s

/-- Ends the scan. -/
def finish (s : RowScan) : Attempt (List Token) :=
  match s.stray with
  | some fault => .fault fault
  | none => .ok s.lexer.finish

end RowScan

end TinyLisp
