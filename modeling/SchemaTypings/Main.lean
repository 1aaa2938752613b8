import SchemaTypings.CommandLine.Run

/-!
# The program

The program takes its targets and options from the command line and the descriptions of the module
files, an array of paths and modules, from standard input. It prints its messages to standard error
and writes the declaration file.
-/

open SchemaTypings SchemaTypings.CommandLine

/-- All that is left of an input. -/
partial def readAll (input : IO.FS.Stream) (text : String) : IO String := do
  let line ← input.getLine
  if line.isEmpty then return text else readAll input (text ++ line)

/-- The module files that standard input describes; a terminal describes none. -/
def readFiles : IO (FileTree String) := do
  let location := toString (← IO.currentDir)
  let input ← IO.getStdin
  let text ← if ← input.isTty then pure "" else readAll input ""
  let items :=
    match Json.read text with
    | .ok (.array items) => items
    | _ => []
  match Description.fileTree location items with
  | .ok files => return files
  | .error e => throw (IO.userError e.message)

/-- The palette that the environment asks for. -/
def readPalette : IO Palette := do
  return .ofEnvironment (← IO.getEnv "NO_COLOR") (← IO.getEnv "MONGOTS_FORCE_COLOR")
    (← (← IO.getStderr).isTty)

/-- The words that describe a failure. -/
def failureText : Failure → String
  | .load (.failed text) => text
  | .load (.missingModule name) => "no module named " ++ name
  | .load (.relativeName name) => "nothing to take the name " ++ name ++ " relative to"
  | .load e => e.message?.getD ""
  | .generate (.parse e) => e.message
  | .generate (.schema e) => e.message?.getD "an option is not a dictionary"
  | .reservedSetting => "the configuration cannot be configured"
  | .unencodablePath => "the path of the output cannot be encoded"
  | .nullInPath => "the path of the output holds a null character"
  | .unencodableText path => "the text for " ++ path.text ++ " cannot be encoded"

/-- Writes a file, and makes the directories that it lies in. -/
def writeOutput (path : PathName) (text : String) : IO Unit := do
  let directory := { path with parts := path.parts.dropLast }
  IO.FS.createDirAll directory.text
  IO.FS.writeFile path.text text

/-- Runs the program. -/
def main (words : List String) : IO UInt32 := do
  let palette ← readPalette
  let config ← IO.getEnv configVariable
  let (result, desk) := (runProgram describedModels words config).perform (← readFiles)
  match result with
  | .ok output => writeOutput output.path output.text
  | .error (.failure (.unencodableText path)) => writeOutput path ""
  | .error _ => pure ()
  IO.eprint (renderMessages palette desk.messages)
  match result with
  | .ok _ => return 0
  | .error (.exit code) => return code.toUInt32
  | .error (.failure f) =>
    IO.eprintln (failureText f)
    return 1
