import SchemaTypings.Text.Lines

/-!
# Writing a file in sections

A unit is a declaration file that is being written: a preamble, import lines, and chunks of text in
two sections. Blocks nest: one indents what is written in it, the other turns to a section and
starts without indentation. What a block changes is given back at its end, so only the chunks and
imports of a unit are carried on.
-/

namespace SchemaTypings

/-- The sections of a file, in their order. -/
inductive Section
  | main | epilogue
  deriving DecidableEq, Repr, Inhabited

/-- A file that is being written. -/
structure SourceUnit where
  preamble : String
  imports : List String
  main : List String
  epilogue : List String
  deriving DecidableEq, Repr, Inhabited

/-- Where in a unit text is being written. -/
structure Scope where
  current : Section
  /-- How many indented blocks are open since the section was turned to. -/
  indentLevel : Nat
  deriving DecidableEq, Repr, Inhabited

/-- The main section without indentation. -/
def Scope.top : Scope := ⟨.main, 0⟩

/-- One more indented block. -/
def Scope.indented (s : Scope) : Scope := { s with indentLevel := s.indentLevel + 1 }

/-- A block that turns to a section. -/
def Scope.turnTo (_ : Scope) (section' : Section) : Scope := ⟨section', 0⟩

namespace SourceUnit

/-- A unit with nothing but a preamble. -/
def empty (preamble : String) : SourceUnit := ⟨preamble, [], [], []⟩

/-- The chunks of a section. -/
def chunks (u : SourceUnit) : Section → List String
  | .main => u.main
  | .epilogue => u.epilogue

/-- The unit with chunks added to a section. -/
def append (u : SourceUnit) (target : Section) (new : List String) : SourceUnit :=
  match target with
  | .main => { u with main := u.main ++ new }
  | .epilogue => { u with epilogue := u.epilogue ++ new }

/-- Whether a chunk was added to a section. -/
def hasContent (u : SourceUnit) (s : Section) : Bool :=
  !(u.chunks s).isEmpty

/-- The unit with a text written at a place. -/
def write (u : SourceUnit) (scope : Scope) (text : String) : SourceUnit :=
  let blanks := String.ofList (List.replicate (2 * scope.indentLevel) ' ')
  u.append scope.current [Text.indent blanks text]

/-- The unit with `size` empty chunks at a place. -/
def writeBreak (u : SourceUnit) (scope : Scope) (size : Nat) : SourceUnit :=
  u.append scope.current (List.replicate size "")

/-- The unit with an import line, which is added once. -/
def addImport (u : SourceUnit) (line : String) : SourceUnit :=
  if u.imports.contains line then u else { u with imports := u.imports ++ [line] }

/-- The unit with import lines. -/
def addImports (u : SourceUnit) (lines : List String) : SourceUnit :=
  lines.foldl addImport u

/-- The text of the file: its parts with an empty line between them. -/
def render (u : SourceUnit) : String :=
  let imports := "\n".intercalate u.imports
  let sections := [Section.main, .epilogue].filter u.hasContent
  "\n\n".intercalate
    (u.preamble :: (if imports.isEmpty then [] else [imports]) ++
      sections.map fun s => "\n".intercalate (u.chunks s)) ++ "\n"

end SourceUnit

end SchemaTypings
