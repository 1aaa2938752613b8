import SchemaTypings.CommandLine.Settings
import SchemaTypings.Description.Module

/-!
# Runs

A run takes the models that its targets lead to, generates their declarations and writes them to one
file. It stops with a code of its own for a mistake in the command line or the models, for a
configuration that is refused, and for a file that cannot be written.
-/

namespace SchemaTypings.CommandLine

/-- What finds the models of some targets. -/
abbrev ModelSource := FileTree String → List String → Except LoadError (List (String × Schema))

/-- The models that are described by the files. -/
def describedModels : ModelSource := fun files targets =>
  loadModels (files.map Description.moduleOfText) targets

/-- The models of a source; a message is printed for an error that has one. -/
def findModels (source : ModelSource) (targets : List String) :
    Session (List (String × Schema)) := do
  match source (← get).files targets with
  | .ok [] => Session.abort "no models found" 2
  | .ok models => return models
  | .error e =>
    match e.message? with
    | some text => Session.abort text 2
    | none => throw (.failure (.load e))

/-- The text of the declaration file of some models. -/
def declarations (s : Settings) (models : List (String × Schema)) : Session String :=
  match generate models ⟨s.augment, s.imports⟩ s.patch with
  | .ok file => return file.fullText
  | .error (.parse (.badName e)) => throw (.failure (.generate (.parse (.badName e))))
  | .error (.parse e) => Session.abort ("could not parse the generated file: " ++ e.message) 2
  | .error (.schema e) => throw (.failure (.generate (.schema e)))

/-- A file that was written. -/
structure Output where
  path : PathName
  text : String
  deriving DecidableEq, Repr

/-- Generates the declaration file of the models of some targets, and writes it. -/
def runGenerator (source : ModelSource) (s : Settings) (targets : List String) :
    Session Output := do
  let models ← findModels source targets
  if !s.quiet then Session.say (.foundModels (Entries.keys models))
  let text ← declarations s models
  Session.write s.outputFile s.isPlainOutput text (s.canEncode text)
  if !s.quiet then Session.say (.wrote s.outputFile)
  Session.say .done
  return ⟨s.outputFile, text⟩

/-- The arguments of a command line. -/
def readArguments (words : List String) : Session Arguments :=
  match Request.ofWords words with
  | .ok (.run a) => return a
  | .ok .help => throw (.exit 0)
  | .error e => do
    Session.say (.usage e.message)
    throw (.exit 2)

/-- Runs the program on a command line and the configuration in the environment. -/
def runProgram (source : ModelSource) (words : List String) (config : Option String) :
    Session Output := do
  let a ← readArguments words
  runGenerator source (← Settings.prepare config a) a.paths

end SchemaTypings.CommandLine
