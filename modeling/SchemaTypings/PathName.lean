import SchemaTypings.Text.Cut

/-!
# Path names

The name of a file or directory, cut at its slashes. Empty parts and `.` say nothing and are left
out, and `..` is kept. A leading slash makes a path absolute; exactly two of them are a root of
their own.
-/

namespace SchemaTypings

/-- A path name without the parts that say nothing. -/
structure PathName where
  /-- What an absolute path begins with; empty when the path is relative. -/
  root : String
  parts : List String
  deriving DecidableEq, Repr, Inhabited

namespace PathName

/-- The number of slashes that some characters begin with. -/
def leadingSlashes (cs : List Char) : Nat :=
  (cs.takeWhile (· == '/')).length

/-- The path that a text names. -/
def ofText (text : String) : PathName :=
  { root :=
      match leadingSlashes text.toList with
      | 0 => ""
      | 2 => "//"
      | _ => "/"
    parts := (Text.cut '/' text).filter fun part => part != "" && part != "." }

/-- The text of a path; the current directory is a dot. -/
def text (p : PathName) : String :=
  if p.root.isEmpty && p.parts.isEmpty then "." else p.root ++ "/".intercalate p.parts

/-- The last part. -/
def name (p : PathName) : String :=
  p.parts.getLastD ""

/-- The last part, cut before its last dot when there is something on both sides of it. -/
def stemAndSuffix (p : PathName) : String × String :=
  let pieces := Text.cut '.' p.name
  let stem := ".".intercalate pieces.dropLast
  let extension := pieces.getLastD ""
  if stem.isEmpty || extension.isEmpty then (p.name, "") else (stem, "." ++ extension)

/-- The last part without its suffix. -/
def stem (p : PathName) : String :=
  p.stemAndSuffix.1

/-- The end of the last part from its last dot on. -/
def suffix (p : PathName) : String :=
  p.stemAndSuffix.2

/-- The path of a name in the directory of a path. -/
def child (p : PathName) (name : String) : PathName :=
  { p with parts := p.parts ++ [name] }

end PathName

end SchemaTypings
