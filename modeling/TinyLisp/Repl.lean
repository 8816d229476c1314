import TinyLisp.Session

/-!
# The read-eval-print loop

The loop reads lines, gathers them into blocks, and evaluates each block.  What
it does with its input does not depend on what evaluation gives, so the input
is first turned into a row of events.

There are four groups.

* `prepare`: a block as source.  Lines with a semicolon are comments, and
  several lines become one form.
* `openForms`: how many parentheses a text leaves open.
* `Repl.receive` takes one line in, and `Repl.events` gives the prompts and the
  blocks of an input.
* `Repl.evaluate` and `Repl.run`: evaluating a block, and the whole loop.
-/

namespace TinyLisp.Repl

/-! ## Blocks as source -/

/-- The lines of a block that are neither blank nor comments, without the white
space around them. -/
def sourceLines (text : List Char) : List (List Char) :=
  (((trim text).splitOn '\n').filter fun line => !line.contains ';' && !isBlankText line).map trim

/-- A block as source.  Several lines become one form that evaluates all of
them in order. -/
def prepare (text : List Char) : List Char :=
  match sourceLines text with
  | [] => []
  | [line] => line
  | lines => "(begin ".toList ++ [' '].intercalate lines ++ [')']

/-! ## Open parentheses -/

/-- The state of a count of parentheses. -/
structure Balance where
  depth : Int
  inString : Bool
  escaped : Bool
deriving DecidableEq, Repr

/-- Counts one character. -/
def Balance.step (b : Balance) (c : Char) : Balance :=
  if b.escaped then { b with escaped := false }
  else if c = '\\' then { b with escaped := true }
  else if c = '"' then { b with inString := !b.inString }
  else if b.inString then b
  else if c = '(' then { b with depth := b.depth + 1 }
  else if c = ')' then { b with depth := b.depth - 1 }
  else b

/-- How many more parentheses a text opens than it closes, outside strings and
apart from escaped ones. -/
def openForms (text : List Char) : Int :=
  (text.foldl Balance.step ⟨0, false, false⟩).depth

/-! ## Events -/

/-- A line with its line end. -/
abbrev Line := List Char

/-- What the loop does with its input. -/
inductive Event where
  /-- Asks for a line, of a new block or of one that has begun. -/
  | prompt (continued : Bool)
  /-- Evaluates a block. -/
  | submit (block : List Line)
  /-- Ends at the end of the input. -/
  | endOfInput
deriving DecidableEq, Repr

/-- The lines that end the loop in place of a block. -/
def exitLines : List (List Char) :=
  ["(exit)".toList, "(quit)".toList]

/-- Whether a block is complete with its last line. -/
def isComplete (block : List Line) (last : Line) : Bool :=
  isBlankText last || openForms (prepare block.flatten) ≤ 0

/-- What becomes of a block when a line comes in. -/
inductive Reception where
  | exit
  /-- The block goes on. -/
  | incomplete (block : List Line)
  | complete (block : List Line)
deriving DecidableEq, Repr

/-- Takes a line in.  Blank lines before a block are dropped, and a line ends
the loop only before a block. -/
def receive (block : List Line) (line : Line) : Reception :=
  if block.isEmpty && exitLines.contains (trim line) then .exit
  else if block.isEmpty && isBlankText line then .incomplete []
  else if isComplete (block ++ [line]) line then .complete (block ++ [line])
  else .incomplete (block ++ [line])

/-- The events of the rest of the input when `block` has been gathered. -/
def eventsFrom (block : List Line) : List Line → List Event
  | [] =>
    .prompt (!block.isEmpty) ::
      (if block.isEmpty then [.endOfInput] else [.submit block, .endOfInput])
  | line :: rest =>
    .prompt (!block.isEmpty) ::
      match receive block line with
      | .exit => []
      | .incomplete block => eventsFrom block rest
      | .complete block => .submit block :: eventsFrom [] rest

/-- The events of an input. -/
def events (lines : List Line) : List Event :=
  eventsFrom [] lines

/-- The lines of a text, each with its line feed; the last one may lack it. -/
def linesFrom (line : List Char) : List Char → List Line
  | [] => if line.isEmpty then [] else [line.reverse]
  | '\n' :: rest => ('\n' :: line).reverse :: linesFrom [] rest
  | c :: rest => linesFrom (c :: line) rest

/-- The lines of a text. -/
def linesOf (text : String) : List Line :=
  linesFrom [] text.toList

/-! ## Evaluating -/

/-- How a loop treats its session. -/
structure Options where
  /-- The prompt for a new block. -/
  prompt : String
  /-- Whether every block starts with a reset. -/
  fresh : Bool
  /-- Whether printed text goes where the loop writes. -/
  sharesOutput : Bool
deriving DecidableEq, Repr

/-- The prompt for the next line of a block. -/
def continuationPrompt : String := "... "

/-- What the loop shows of an evaluation that stopped.  It has no words for a
fault outside all natives, and an evaluation that uses up the rounds of the machine
stands for one that does not end, which leaves nothing to show. -/
def report? : Stop → Option String
  | .fault _ | .tooLong => none
  | stop => some ("Error: " ++ stop.message)

/-- The value of a source, or what stopped the evaluation. -/
def attempt (m : Machine) (source : String) : Interaction (Except Stop Value) := fun session =>
  match Session.eval m source session with
  | .ok value session => .ok (.ok value) session
  | .error stop session => .ok (.error stop) session

/-- Evaluates a block: whether it has a value, and the text of the value or of
what went wrong.  A value that cannot be written ends the interaction, and so does
an evaluation without an end. -/
def evaluate (m : Machine) (fresh : Bool) (text : List Char) : Interaction (Bool × String) := do
  if fresh then Session.reset m
  match prepare text with
  | [] => return (true, "")
  | source =>
    match ← attempt m (String.ofList source) with
    | .ok value => return (true, ← Interaction.onStore (m.text value))
    | .error stop =>
      match report? stop with
      | some text => return (false, text)
      | none => throw stop

/-- A computation on what has been written and a session. -/
abbrev Dialogue := EStateM Stop (String × Session)

/-- Writes a text. -/
def say (text : String) : Dialogue Unit :=
  modify fun (written, session) => (written ++ text, session)

/-- An interaction in a dialogue.  What it prints is written behind what has
been written before, if the output is shared, and is dropped otherwise. -/
def interact {α : Type} (sharesOutput : Bool) (interaction : Interaction α) : Dialogue α :=
  fun (written, session) =>
    let add (session : Session) : String × Session :=
      let (printed, store) := session.store.takeOutput
      (if sharesOutput then written ++ printed else written, { session with store := store })
    match interaction session with
    | .ok result session => .ok result (add session)
    | .error stop session => .error stop (add session)

/-- What the loop does for an event. -/
def perform (m : Machine) (options : Options) : Event → Dialogue Unit
  | .prompt continued => say (if continued then continuationPrompt else options.prompt)
  | .submit block => do
    let (_, text) ← interact options.sharesOutput (evaluate m options.fresh block.flatten)
    if text ≠ "" then say (text ++ "\n")
  | .endOfInput => say "\n"

/-- The whole loop on an input. -/
def run (m : Machine) (options : Options) (input : String) : Dialogue Unit :=
  (events (linesOf input)).forM (perform m options)

end TinyLisp.Repl
