import SchemaTypings.Entries
import SchemaTypings.PathName

/-!
# File trees

The files below one directory, with their contents. The directories are those that some file lies
in. Paths are read from the directory itself; what lies outside of it cannot be read, and is only
known by what was written there.
-/

namespace SchemaTypings

/-- The files below a directory. -/
structure FileTree (α : Type) where
  /-- The absolute path of the directory. -/
  location : String
  /-- The files, each by the names on the way to it. -/
  files : List (List String × α)
  /-- The files that were written outside of the directory. -/
  outside : List (PathName × α)

namespace FileTree

variable {α : Type}

/-- Whether a file is at some names. -/
def hasFile (t : FileTree α) (names : List String) : Bool :=
  t.files.any (·.1 == names)

/-- Whether a directory is at some names. -/
def hasDirectory (t : FileTree α) (names : List String) : Bool :=
  names.isEmpty || t.files.any fun f => names.isPrefixOf f.1 && f.1 != names

/-- The contents of the file at some names: those that were written last. -/
def read? (t : FileTree α) (names : List String) : Option α :=
  t.files.reverse.lookup names

/-- The names in a directory. -/
def namesIn (t : FileTree α) (directory : List String) : List String :=
  (t.files.filterMap fun f =>
    if directory.isPrefixOf f.1 then f.1[directory.length]? else none).eraseDups

/-- All files and directories below a directory, by the names that lead on from it. -/
def below (t : FileTree α) (directory : List String) : List (List String) :=
  (t.files.flatMap fun f =>
    if directory.isPrefixOf f.1 then
      let rest := f.1.drop directory.length
      (List.range rest.length).map fun n => rest.take (n + 1)
    else []).eraseDups

/-- Where some parts of a path lead to from a directory. An empty part and a dot stay there and two
dots lead out of it, and all of them want to start at a directory. -/
def walk (t : FileTree α) : (here : List String) → (parts : List String) → Option (List String)
  | here, [] => some here
  | here, part :: rest =>
    if !t.hasDirectory here then none
    else if part = "" || part = "." then walk t here rest
    else if part = ".." then
      match here with
      | [] => none
      | _ :: _ => walk t here.dropLast rest
    else walk t (here ++ [part]) rest

/-- The names of the file or directory that a path leads to, when it exists. -/
def locate? (t : FileTree α) (path : String) : Option (List String) :=
  if path.isEmpty || path.startsWith "/" then none
  else (t.walk [] (Text.cut '/' path)).filter fun names => t.hasFile names || t.hasDirectory names

/-- Whether a path leads to a file or a directory. -/
def exists? (t : FileTree α) (path : String) : Bool :=
  (t.locate? path).isSome

/-- Whether a path leads to a file. -/
def isFile (t : FileTree α) (path : String) : Bool :=
  (t.locate? path).any t.hasFile

/-- Whether a path leads to a directory. -/
def isDirectory (t : FileTree α) (path : String) : Bool :=
  (t.locate? path).any t.hasDirectory

/-- The tree with all contents read in another way. -/
def map {β : Type} (f : α → β) (t : FileTree α) : FileTree β :=
  ⟨t.location, t.files.map fun file => (file.1, f file.2),
    t.outside.map fun file => (file.1, f file.2)⟩

/-! ## Writing -/

/-- Where a file may be written. -/
inductive Place
  | inside (names : List String)
  /-- Somewhere outside of the directory of the tree. -/
  | outside (path : PathName)
  deriving DecidableEq, Repr

/-- Where some parts of a path lead to from a directory when missing directories are made on the
way; no way leads through a file. There is no place for a way that leads out of the tree. -/
def makeWay (t : FileTree α) : (here : List String) → (parts : List String) →
    Option (Option (List String))
  | here, [] => some (some here)
  | here, part :: rest =>
    if part = ".." then
      match here with
      | [] => some none
      | _ :: _ => makeWay t here.dropLast rest
    else if t.hasFile (here ++ [part]) then none
    else makeWay t (here ++ [part]) rest

/-- Where the file of a path can be written: its directory can be made, and no directory has its
name. -/
def placeFor? (t : FileTree α) (path : PathName) : Option Place :=
  if !path.root.isEmpty then some (.outside path)
  else
    match t.makeWay [] path.parts.dropLast with
    | some (some here) =>
      let names := here ++ [path.name]
      if t.hasDirectory names then none else some (.inside names)
    | some none => some (.outside path)
    | none => none

/-- The tree with a file written at a place. -/
def put (t : FileTree α) (place : Place) (contents : α) : FileTree α :=
  match place with
  | .inside names => { t with files := t.files.filter (·.1 != names) ++ [(names, contents)] }
  | .outside path => { t with outside := t.outside.filter (·.1 != path) ++ [(path, contents)] }

/-- The contents of the file at a place. -/
def at? (t : FileTree α) : Place → Option α
  | .inside names => t.read? names
  | .outside path => t.outside.reverse.lookup path

/-- The tree of some files given by their paths. -/
def ofFiles (location : String) (files : List (String × α)) : FileTree α :=
  ⟨location, files.map fun f => ((PathName.ofText f.1).parts, f.2), []⟩

end FileTree

end SchemaTypings
