import SchemaTypings.Text.Case

/-!
# Colours of messages

The escape sequences around the parts of a message. They are all empty unless colours are asked for.
-/

namespace SchemaTypings.CommandLine

/-- The escape sequences by their use. -/
structure Palette where
  header : String
  blue : String
  cyan : String
  green : String
  warning : String
  fail : String
  stop : String
  bold : String
  underline : String
  deriving DecidableEq, Repr, Inhabited

/-- The escape sequence that selects a rendition. -/
def rendition (code : Nat) : String :=
  "\x1b[" ++ toString code ++ "m"

namespace Palette

/-- No colours. -/
def plain : Palette := ⟨"", "", "", "", "", "", "", "", ""⟩

/-- Colours. -/
def colored : Palette :=
  { header := rendition 95
    blue := rendition 94
    cyan := rendition 96
    green := rendition 92
    warning := rendition 93
    fail := rendition 91
    stop := rendition 0
    bold := rendition 1
    underline := rendition 4 }

/-- The palette for two settings of the environment: `noColor` switches colours off when it says
anything, and otherwise `forceColor` decides when it is set. Without them it matters whether
messages go to a terminal. -/
def ofEnvironment (noColor forceColor : Option String) (isTerminal : Bool) : Palette :=
  let isOn :=
    if noColor.any (!·.isEmpty) then false
    else
      match forceColor with
      | some force => ["1", "true", "yes"].contains (Text.toLower force)
      | none => isTerminal
  if isOn then colored else plain

end Palette

end SchemaTypings.CommandLine
