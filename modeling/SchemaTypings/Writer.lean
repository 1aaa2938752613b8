import SchemaTypings.Unit

/-!
# A writer with blocks

A writer keeps the unit that it writes and the place where it writes: the current section, the
section whose chunks it holds on to, and the indentation. A block changes the place at its start
and gives it back at its end, also when what is done in it fails.
-/

namespace SchemaTypings

/-- A unit that is being written, and where. -/
structure Writer where
  unit : SourceUnit
  current : Section
  /-- The section that texts are added to. -/
  buffer : Section
  indentLevel : Nat
  deriving DecidableEq, Repr, Inhabited

/-- A writer that begins a unit. -/
def Writer.start (preamble : String) : Writer :=
  ⟨.empty preamble, .main, .main, 0⟩

/-- What is done with a writer. What was written before a failure stays. -/
abbrev Writing (ε α : Type) := ExceptT ε (StateM Writer) α

namespace Writing

variable {ε α : Type}

/-- Writes a text with the indentation of its place. -/
def write (text : String) : Writing ε Unit :=
  modify fun w => { w with unit := w.unit.write ⟨w.buffer, w.indentLevel⟩ text }

/-- Writes `size` empty chunks, and none when that is negative. -/
def writeBreak (size : Int) : Writing ε Unit :=
  modify fun w => { w with unit := w.unit.writeBreak ⟨w.buffer, w.indentLevel⟩ size.toNat }

/-- Adds an import line. -/
def addImport (line : String) : Writing ε Unit :=
  modify fun w => { w with unit := w.unit.addImport line }

/-- Adds import lines. -/
def addImports (lines : List String) : Writing ε Unit :=
  lines.forM addImport

/-- A block that is indented. -/
def indented (body : Writing ε α) : Writing ε α := do
  modify fun w => { w with indentLevel := w.indentLevel + 1 }
  tryFinally body (modify fun w => { w with indentLevel := w.indentLevel - 1 })

/-- A block that turns to a section. -/
def codeSection (s : Section) (body : Writing ε α) : Writing ε α := do
  let level := (← get).indentLevel
  modify fun w => { w with indentLevel := 0 }
  let outer := (← get).current
  modify fun w => { w with current := s, buffer := s }
  tryFinally body
    (modify fun w => { w with current := outer, buffer := outer, indentLevel := level })

/-- The text of the unit so far. -/
def render : Writing ε String :=
  return (← get).unit.render

/-- What comes of working with a writer, and the writer that is left. -/
def perform (x : Writing ε α) (w : Writer) : Except ε α × Writer :=
  x.run.run w

end Writing

end SchemaTypings
