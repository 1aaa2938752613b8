import SchemaTypings.CommandLine.Message
import SchemaTypings.Discovery.Models
import SchemaTypings.Generate

/-!
# Sessions

A session works on the files of a directory, prints messages, and gives a result unless it stops.
What it printed and wrote before it stops remains.
-/

namespace SchemaTypings.CommandLine

/-- Why a session fails without saying so. -/
inductive Failure
  | load (e : LoadError)
  | generate (e : GenerateError)
  /-- The environment configures the configuration. -/
  | reservedSetting
  /-- A path holds an unpaired surrogate. -/
  | unencodablePath
  /-- A path holds a null character. -/
  | nullInPath
  /-- The text for a file holds an unpaired surrogate. The file is left without text. -/
  | unencodableText (path : PathName)
  deriving DecidableEq, Repr

/-- How a session ends without a result. -/
inductive Stop
  | exit (code : Nat)
  | failure (f : Failure)
  deriving DecidableEq, Repr

/-- What a session works on. -/
structure Desk where
  files : FileTree String
  /-- The messages so far, the first one first. -/
  messages : List Message

/-- A session that gives a result of a type. -/
abbrev Session (α : Type) := ExceptT Stop (StateM Desk) α

namespace Session

/-- Prints a message. -/
def say (m : Message) : Session Unit :=
  modify fun d => { d with messages := d.messages ++ [m] }

/-- Prints an error and exits with a code. -/
def abort {α : Type} (text : String) (code : Nat) : Session α := do
  say (.error text)
  throw (.exit code)

/-- What is wrong with some parts of a path as the names of files. In a path that is not plain,
U+FFFD stands for unpaired surrogates. -/
def nameFault? (isPlain : Bool) (parts : List String) : Option Failure :=
  if !isPlain && parts.any (·.contains '\uFFFD') then some .unencodablePath
  else if parts.any (·.contains '\x00') then some .nullInPath
  else none

/-- The place that is opened for the file of a path, whose directory is made first. -/
def openedPlace (files : FileTree String) (path : PathName) (isPlain : Bool) :
    Except Stop FileTree.Place :=
  match nameFault? isPlain path.parts.dropLast with
  | some f => .error (.failure f)
  | none =>
    match files.placeFor? path with
    | none => .error (.exit 73)
    | some place =>
      match nameFault? isPlain [path.name] with
      | some f => .error (.failure f)
      | none => .ok place

/-- Writes a file. It loses its text when it is opened, so that a text that cannot be encoded leaves
it without any. -/
def write (path : PathName) (isPlain : Bool) (contents : String) (isEncodable : Bool) :
    Session Unit := do
  match openedPlace (← get).files path isPlain with
  | .error stop => throw stop
  | .ok place =>
    modify fun d => { d with files := d.files.put place "" }
    if isEncodable then modify fun d => { d with files := d.files.put place contents }
    else throw (.failure (.unencodableText path))

/-- The result of a session on some files, and the desk that it leaves. -/
def perform {α : Type} (s : Session α) (files : FileTree String) : Except Stop α × Desk :=
  (s.run.run ⟨files, []⟩)

end Session

end SchemaTypings.CommandLine
