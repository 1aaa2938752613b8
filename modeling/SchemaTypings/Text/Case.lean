import SchemaTypings.Text.Stretches
import SchemaTypings.Text.CaseTables

/-!
# Upper and lower case

Full case mapping of texts: a character may map to several, and a capital sigma takes its final
form at the end of a word. `capitalize` raises the first character only.
-/

namespace SchemaTypings.Text

/-- The code point that the first fitting run assigns to `n`, and `n` itself when none fits. -/
def shiftByRuns (runs : List (Nat × Nat × Nat × Int)) (n : Nat) : Nat :=
  let holds := fun (first, last, step, _) => first ≤ n && n ≤ last && (n - first) % step == 0
  match runs.find? holds with
  | some (_, _, _, shift) => (n + shift).toNat
  | none => n

/-- The characters that one character maps to, by a table of expansions and a table of runs. -/
def mapCase (expansions : List (Nat × List Nat)) (runs : List (Nat × Nat × Nat × Int)) (c : Char) :
    List Char :=
  match expansions.lookup c.toNat with
  | some points => points.map Char.ofNat
  | none => [Char.ofNat (shiftByRuns runs c.toNat)]

/-- The upper case of one character; for ASCII it is read off directly. -/
def upperChar (c : Char) : List Char :=
  if c.toNat < 128 then [c.toUpper] else mapCase upperExpansions upperRuns c

/-- The lower case of one character, whatever surrounds it. -/
def lowerChar (c : Char) : List Char :=
  if c.toNat < 128 then [c.toLower] else mapCase lowerExpansions lowerRuns c

/-- Whether the nearest character that is not passed over has case. -/
def meetsCased (chars : List Char) : Bool :=
  match chars.dropWhile (fun c => inStretches caseIgnorableBounds c.toNat) with
  | c :: _ => inStretches casedBounds c.toNat
  | [] => false

/-- The lower case of a text; `before` holds what has been read, last character first. A capital
sigma ends a word when a cased character stands before it and none after it. -/
def lowerFrom (before : List Char) : List Char → List Char
  | [] => []
  | c :: rest =>
    let low :=
      if c = 'Σ' then
        if meetsCased before && !meetsCased rest then ['ς'] else ['σ']
      else lowerChar c
    low ++ lowerFrom (c :: before) rest

/-- The lower case of a text. -/
def toLower (s : String) : String :=
  String.ofList (lowerFrom [] s.toList)

/-- The text with its first character in upper case and the others as they are. -/
def capitalizeChars : List Char → List Char
  | [] => []
  | c :: rest => upperChar c ++ rest

/-- The text with its first character in upper case and the others as they are. -/
def capitalize (s : String) : String :=
  String.ofList (capitalizeChars s.toList)

end SchemaTypings.Text
