import SchemaTypings.Discovery.FileTree
import SchemaTypings.Value

/-!
# Modules and their exports

A module is what loading its file does, step by step: it exports values, loads other modules, or
fails. A dotted name leads through packages: a package is a directory, with what the file
`__init__.py` in it does or without any steps of its own, and any other module is a file.
-/

namespace SchemaTypings

/-- A value that a module exports. -/
inductive Export
  | model (name : String) (s : Schema)
  /-- A value that is no model. -/
  | other

/-- A step of loading a module. -/
inductive ModuleStep
  | export (name : String) (v : Export)
  /-- Fails with a text. -/
  | fail (text : String)
  /-- Loads another module by its dotted name. -/
  | load (name : String)

/-- The steps of loading a module. -/
abbrev Module := List ModuleStep

/-- What a module exports in the end, in the order in which the names appeared. -/
def Module.exports (m : Module) : List (String × Export) :=
  Entries.ofList <| m.filterMap fun
    | .export name v => some (name, v)
    | _ => none

/-- Why models cannot be loaded. -/
inductive LoadError
  /-- Nothing is at a path or under a dotted name. -/
  | notFound (target : String)
  | noModel (target : String)
  /-- A module failed with a text. -/
  | failed (text : String)
  /-- A module that another one loads is missing. -/
  | missingModule (name : String)
  /-- A dotted name begins with a dot, with nothing to be relative to. -/
  | relativeName (name : String)
  deriving DecidableEq, Repr

/-- The message of an error that the library words itself. -/
def LoadError.message? : LoadError → Option String
  | .notFound target => some ("Could not find a module at path " ++ target ++ ".")
  | .noModel target =>
    some ("A module was found at " ++ target ++ ", but no exported models were found. " ++
      "Please ensure this module exports a model created with mongots.model().")
  | .failed _ | .missingModule _ | .relativeName _ => none

namespace Module

/-- What a module name is found to be. -/
structure Found where
  isPackage : Bool
  steps : Module

/-- The module of a name in a directory: a package with steps before a file, and a file before a
package without steps. -/
def find? (t : FileTree Module) (directory : List String) (name : String) : Option Found :=
  match t.read? (directory ++ [name, "__init__.py"]), t.read? (directory ++ [name ++ ".py"]) with
  | some steps, _ => some ⟨true, steps⟩
  | none, some steps => some ⟨false, steps⟩
  | none, none => if t.hasDirectory (directory ++ [name]) then some ⟨true, []⟩ else none

/-- The module of a dotted name, given by its parts, below a directory; all parts before the last
must be packages. -/
def resolve? (t : FileTree Module) : (directory : List String) → (parts : List String) →
    Option Found
  | _, [] => none
  | directory, [name] => find? t directory name
  | directory, name :: rest =>
    match find? t directory name with
    | some ⟨true, _⟩ => resolve? t (directory ++ [name]) rest
    | _ => none

/-- The lists of parts that a dotted name begins with, the shortest first. -/
def leads (parts : List String) : List (List String) :=
  (List.range parts.length).map fun n => parts.take (n + 1)

mutual
/-- Loads the module of a dotted name, after those that its name leads through, unless they are
loaded already; gives the loaded ones. The first argument bounds how deeply modules load others. -/
def load (t : FileTree Module) : Nat → (loaded : List (List String)) → (name : String) →
    Except LoadError (List (List String))
  | 0, loaded, _ => .ok loaded
  | depth + 1, loaded, name =>
    (leads (Text.cut '.' name)).foldlM (fun loaded parts =>
      if loaded.contains parts then .ok loaded
      else
        match resolve? t [] parts with
        | none => .error (.missingModule (".".intercalate parts))
        | some found => runSteps t depth (parts :: loaded) found.steps) loaded

/-- Takes the steps of a module, with some modules loaded already. -/
def runSteps (t : FileTree Module) : Nat → (loaded : List (List String)) → Module →
    Except LoadError (List (List String))
  | 0, loaded, _ => .ok loaded
  | depth + 1, loaded, steps =>
    steps.foldlM (fun loaded step =>
      match step with
      | .export _ _ => .ok loaded
      | .fail text => .error (.failed text)
      | .load name => load t depth loaded name) loaded
end

/-- Loads a module that was found. No modules beyond those of the tree can be loaded, and each of
its files belongs to at most two of them. -/
def run (t : FileTree Module) (m : Module) : Except LoadError Unit := do
  let _ ← runSteps t (4 * t.files.length + 4) [] m

/-- The module of a dotted name, loaded. -/
def ofName (t : FileTree Module) (name : String) : Except LoadError Module := do
  if name.startsWith "." then throw (.relativeName name)
  match load t (4 * t.files.length + 4) [] name with
  | .ok _ => return ((resolve? t [] (Text.cut '.' name)).map (·.steps)).getD []
  | .error (.missingModule missing) =>
    throw (if name.startsWith missing then .notFound name else .missingModule missing)
  | .error e => throw e

/-- The module in the file at a path, loaded. Only files of the module language can be loaded; any
other file is reported by its full path. -/
def ofFile (t : FileTree Module) (path : PathName) (target : String) :
    Except LoadError Module := do
  match t.locate? path.text with
  | none => throw (.notFound target)
  | some names =>
    match t.read? names with
    | none => throw (.notFound target)
    | some m =>
      let fullPath := t.location ++ "/" ++ "/".intercalate names
      if !fullPath.endsWith ".py" then throw (.notFound fullPath)
      run t m
      return m

/-- The module that a target names, loaded: the file at a path, when the target is written as one or
something is there, and the module of a dotted name otherwise. With it comes the name that its model
is expected to be called after. -/
def ofTarget (t : FileTree Module) (target : String) : Except LoadError (Module × String) := do
  let path := PathName.ofText target
  if path.suffix = ".py" || t.exists? path.text then
    return (← ofFile t path target, path.stem)
  else
    return (← ofName t target, (Text.cut '.' target).getLastD "")

end Module

end SchemaTypings
