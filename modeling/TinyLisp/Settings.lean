import TinyLisp.FileTree
import TinyLisp.Text.Uppercase

/-!
# Settings

Three settings come from the environment of the program: where the prelude
files are, how much is logged, and the prompt.

There are two groups.

* `Settings` and the values in force: `Settings.logLevel`, `Settings.prompt`
  and `Settings.preludeFiles`.
* The contents of the prelude files.  `Settings.preludeContents` gives them in
  the order in which they are loaded, a missing one as nothing.

What a path leads to is a parameter throughout.
-/

namespace TinyLisp

/-- The settings as they were made; nothing stands for one that was not. -/
structure Settings where
  preludePath : Option String
  logLevel : Option String
  prompt : Option String
deriving DecidableEq, Repr

/-- A file of the prelude. -/
inductive PreludeFile where
  /-- The prelude that comes with the program. -/
  | bundled
  | file (path : Path)
deriving DecidableEq, Repr

/-- The bundled prelude. -/
def bundledPrelude : String :=
  "(define (cadr x) (car (cdr x)))
(define (caddr x) (car (cdr (cdr x))))
(define (square x) (* x x))
(define (cube x) (* x x x))
(define (zero? x) (= x 0))
(define (positive? x) (> x 0))
(define (negative? x) (< x 0))
(define (even? x) (= (mod x 2) 0))
(define (odd? x) (= (mod x 2) 1))
"

/-- A text with each line end, of whatever kind, as a line feed. -/
def withLineFeeds : List Char → List Char
  | [] => []
  | '\r' :: '\n' :: rest => '\n' :: withLineFeeds rest
  | '\r' :: rest => '\n' :: withLineFeeds rest
  | c :: rest => c :: withLineFeeds rest

namespace Settings

/-- The level from which on messages are logged. -/
def effectiveLogLevel (settings : Settings) : String :=
  uppercase (settings.logLevel.getD "WARNING")

/-- The prompt for a new block. -/
def effectivePrompt (settings : Settings) : String :=
  settings.prompt.getD "lispy> "

/-- The levels that there are. -/
def logLevels : List String :=
  ["CRITICAL", "FATAL", "ERROR", "WARN", "WARNING", "INFO", "DEBUG", "NOTSET"]

/-- The paths in a list that colons separate, without blank ones. -/
def listedPaths (list : String) : List Path :=
  ((list.toList.splitOn ':').map trim).filterMap fun text =>
    if text.isEmpty then none else some (Path.ofText (String.ofList text))

/-- The paths of the prelude, if there is a list of them that is not empty. -/
def listedPaths? (settings : Settings) : Option (List Path) :=
  match settings.preludePath with
  | none | some "" => none
  | some list => some (listedPaths list)

/-- Whether a name is that of a source file. -/
def isSourceName (name : String) : Bool :=
  name.endsWith ".lsp"

/-- The files of one path: a directory stands for its source files. -/
def expand (find : Path → Found) (path : Path) : List PreludeFile :=
  match find path with
  | .directory entries =>
    (entries.filter isSourceName).map fun name => .file (path.entry name)
  | _ => [.file path]

/-- The prelude files in order.  Without a list of paths, or with an empty one,
it is the bundled prelude. -/
def preludeFiles (settings : Settings) (find : Path → Found) : List PreludeFile :=
  match settings.listedPaths? with
  | none => [.bundled]
  | some paths => paths.flatMap (expand find)

/-- The contents of a prelude file, if it is a file. -/
def contents? (find : Path → Found) : PreludeFile → Option String
  | .bundled => some bundledPrelude
  | .file path =>
    match find path with
    | .file contents => some (String.ofList (withLineFeeds contents.toList))
    | _ => none

/-- The contents of the prelude files in order. -/
def preludeContents (settings : Settings) (find : Path → Found) : List (Option String) :=
  (settings.preludeFiles find).map (contents? find)

end Settings

end TinyLisp
