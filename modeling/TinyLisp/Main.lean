import TinyLisp.Program

/-!
# The command line

The settings come from the environment and the prelude files from the disk.
Lines are read, taken in and answered one at a time.
-/

open TinyLisp

/-- The settings of the environment. -/
def environmentSettings : IO Settings := do
  return ⟨← IO.getEnv "LISPY_PRELUDE_PATH", ← IO.getEnv "LISPY_LOG_LEVEL",
    ← IO.getEnv "LISPY_PROMPT"⟩

/-- What a path leads to on the disk. -/
def findOnDisk (path : Path) : IO Found := do
  try
    let place ← IO.FS.realPath path.text
    if ← place.isDir then
      let names := (← place.readDir).toList.map (·.fileName)
      return .directory (names.mergeSort fun a b => decide (a ≤ b))
    else return .file (← IO.FS.readFile path.text)
  catch _ => return .nothing

/-- The paths that the settings lead to, each with what is found there. -/
def lookAround (settings : Settings) : IO (List (Path × Found)) := do
  let mut found := []
  for path in settings.listedPaths?.getD [] do
    let here ← findOnDisk path
    found := (path, here) :: found
    if let .directory entries := here then
      for name in entries do
        if Settings.isSourceName name then
          found := (path.entry name, ← findOnDisk (path.entry name)) :: found
  return found

/-- Writes a text at once. -/
def write (output : IO.FS.Stream) (text : String) : IO Unit := do
  output.putStr text
  output.flush

/-- A step of the dialogue, written out, with the session that it leaves. -/
def speak (output : IO.FS.Stream) (step : Repl.Dialogue Unit) (session : Session) :
    IO Session := do
  match step ("", session) with
  | .ok _ (text, session) =>
    write output text
    return session
  | .error stop (text, _) =>
    write output text
    throw (IO.userError stop.message)

/-- The loop over the lines of the input. -/
partial def converse (input output : IO.FS.Stream) (options : Repl.Options)
    (block : List Repl.Line) (session : Session) : IO Unit := do
  let say (event : Repl.Event) := speak output (Repl.perform usualMachine options event)
  let session ← say (.prompt (!block.isEmpty)) session
  let line ← input.getLine
  if line.isEmpty then
    let session ← if block.isEmpty then pure session else say (.submit block) session
    let _ ← say .endOfInput session
  else
    match Repl.receive block line.toList with
    | .exit => pure ()
    | .incomplete block => converse input output options block session
    | .complete block => converse input output options [] (← say (.submit block) session)

/-- Starts a session and runs the loop on the standard streams. -/
def main : IO Unit := do
  let settings ← environmentSettings
  let level := settings.effectiveLogLevel
  unless Settings.logLevels.contains level do
    throw (IO.userError (Program.unknownLevelMessage level))
  let found ← lookAround settings
  let prelude := .files (settings.preludeContents fun path => (found.lookup path).getD .nothing)
  let options := ⟨settings.effectivePrompt, false, true⟩
  let output ← IO.getStdout
  let session ← speak output (Repl.interact true (Session.reset usualMachine)) (.new prelude [])
  converse (← IO.getStdin) output options [] session
