import TinyLisp.Repl
import TinyLisp.Settings
import TinyLisp.Text.Quoted

/-!
# The program

The program starts a session with the prelude files of its settings and runs
the loop on its input.

`Program.run` gives all that is written, and the reason if the program does not
end well.
-/

namespace TinyLisp.Program

/-- Why the program does not end well. -/
inductive Failure where
  /-- The log level of the settings does not exist. -/
  | unknownLevel (level : String)
  | stop (stop : Stop)

/-- The text of the failure of an unknown log level. -/
def unknownLevelMessage (level : String) : String :=
  "Unknown level: " ++ Text.quoteForDiagnostics level

/-- Starts a session and runs the loop on an input. -/
def dialogue (m : Machine) (options : Repl.Options) (input : String) : Repl.Dialogue Unit := do
  Repl.interact options.sharesOutput (Session.reset m)
  Repl.run m options input

/-- What is written in a dialogue, and what stops it. -/
def transcript (m : Machine) (options : Repl.Options) (prelude : Prelude) (input : String) :
    String × Option Stop :=
  match dialogue m options input ("", .new prelude []) with
  | .ok _ (written, _) => (written, none)
  | .error stop (written, _) => (written, some stop)

/-- The whole program. -/
def run (settings : Settings) (find : Path → Found) (input : String) :
    String × Option Failure :=
  let level := settings.effectiveLogLevel
  if Settings.logLevels.contains level then
    let options := ⟨settings.effectivePrompt, false, true⟩
    let prelude := .files (settings.preludeContents find)
    let (written, stop) := transcript usualMachine options prelude input
    (written, stop.map .stop)
  else ("", some (.unknownLevel level))

end TinyLisp.Program
