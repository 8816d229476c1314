import TinyLisp.Text.Blank

/-!
# Tokens

Source text is cut into parentheses, strings and atoms.  There are three
groups.

* `Token` and `Token.text`: the tokens and the characters they stand for.
* `Lexer`: the state of a scan.  `Lexer.step` takes one character and
  `Lexer.finish` ends the scan.
* `tokenize`: all tokens of a source.  `Lexer.scan_append` says that the scan
  of a text goes on where the scan of its front ended.
-/

namespace TinyLisp

/-- The tokens of source text.  Strings and atoms hold their characters with
all escapes undone. -/
inductive Token where
  | opening
  | closing
  | string (text : String)
  | atom (text : String)
deriving DecidableEq, Repr

/-- The characters that a token stands for. -/
def Token.text : Token → String
  | opening => "("
  | closing => ")"
  | string text | atom text => text

/-- The state of a scan. -/
structure Lexer where
  /-- The tokens found, the last one first. -/
  found : List Token
  /-- The characters of the token that is being read, the last one first. -/
  pending : List Char
  /-- Whether the scan is inside a string literal. -/
  inString : Bool
  /-- Whether the last character was a backslash that escapes the next one. -/
  escaped : Bool
deriving DecidableEq, Repr

namespace Lexer

/-- The state before the first character. -/
def start : Lexer :=
  ⟨[], [], false, false⟩

/-- Ends the atom that is being read.  An atom of white space only is dropped. -/
def flush (s : Lexer) : Lexer :=
  if isBlankText s.pending then { s with pending := [] }
  else { s with found := .atom (String.ofList s.pending.reverse) :: s.found, pending := [] }

/-- Adds a token. -/
def emit (s : Lexer) (token : Token) : Lexer :=
  { s with found := token :: s.found }

/-- Ends the string that is being read. -/
def closeString (s : Lexer) : Lexer :=
  { s with
    found := .string (String.ofList s.pending.reverse) :: s.found
    pending := []
    inString := false }

/-- The white space that separates tokens. -/
def separators : List Char :=
  [' ', '\t', '\n', '\r']

/-- Whether a character separates tokens. -/
def isSeparator (c : Char) : Bool :=
  separators.contains c

/-- Takes one character.  A backslash makes the next character an ordinary one,
inside strings and outside. -/
def step (s : Lexer) (c : Char) : Lexer :=
  if s.escaped then { s with pending := c :: s.pending, escaped := false }
  else if c = '\\' then { s with escaped := true }
  else if c = '"' then
    if s.inString then s.closeString else { s.flush with inString := true }
  else if s.inString then { s with pending := c :: s.pending }
  else if c = '(' then s.flush.emit .opening
  else if c = ')' then s.flush.emit .closing
  else if isSeparator c then s.flush
  else { s with pending := c :: s.pending }

/-- Ends the scan.  A string that has not been closed ends with the source. -/
def finish (s : Lexer) : List Token :=
  if s.inString then s.closeString.found.reverse else s.flush.found.reverse

/-- Takes the characters of a text. -/
def scan (s : Lexer) (text : List Char) : Lexer :=
  text.foldl step s

/-- The scan of a text goes on where the scan of its front ended. -/
@[simp] theorem scan_append (s : Lexer) (front rest : List Char) :
    s.scan (front ++ rest) = (s.scan front).scan rest :=
  List.foldl_append

end Lexer

/-- The tokens of a source. -/
def tokenize (source : String) : List Token :=
  (Lexer.start.scan source.toList).finish

end TinyLisp
