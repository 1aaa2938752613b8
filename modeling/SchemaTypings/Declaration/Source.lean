import SchemaTypings.Declaration.Parser

/-!
# Editing declaration files

A source file is a text with the statements that were read from it and the edits that were made
since. An edit replaces the text of one span; it is kept beside the text until the text is asked
for.
-/

namespace SchemaTypings.Declaration

/-- The text that takes the place of a span. -/
structure Edit where
  start : Nat
  stop : Nat
  text : String
  deriving DecidableEq, Repr, Inhabited

/-- A declaration file with its pending edits, which are in the order of their places. -/
structure SourceFile where
  text : String
  edits : List Edit
  statements : List Statement
  deriving Inhabited

/-- The edits with one more. The edit of a place takes the place of an earlier one that starts
there. -/
def insertEdit (e : Edit) : List Edit → List Edit
  | [] => [e]
  | f :: rest =>
    if e.start < f.start then e :: f :: rest
    else if e.start = f.start then e :: rest
    else f :: insertEdit e rest

/-- The text between two offsets. -/
def slice (cs : List Char) (start stop : Nat) : List Char :=
  (cs.drop start).take (stop - start)

/-- What stands between two texts is found between their offsets. -/
theorem slice_append (before x after : List Char) :
    slice (before ++ x ++ after) before.length (before.length + x.length) = x := by
  simp [slice]

/-- The text from an offset on, with edits made to it. -/
def applyEdits (cs : List Char) (pos : Nat) : List Edit → List Char
  | [] => cs.drop pos
  | e :: rest => slice cs pos e.start ++ e.text.toList ++ applyEdits cs e.stop rest

/-- An offset counted from the start, or from the end when it is negative. -/
def boundOffset (length : Nat) (i : Int) : Nat :=
  min length (if i < 0 then (i + length).toNat else i.toNat)

namespace SourceFile

/-- A file without text. -/
def empty : SourceFile := ⟨"", [], []⟩

/-- The text with all edits made. -/
def fullText (f : SourceFile) : String :=
  String.ofList (applyEdits f.text.toList 0 f.edits)

/-- The file with a text put in the place of a span. -/
def replaceSpan (f : SourceFile) (start stop : Nat) (text : String) : SourceFile :=
  { f with edits := insertEdit ⟨start, stop, text⟩ f.edits }

/-- The text of a span: that of its edit, or that of the file. Negative offsets count from the
end. -/
def spanText (f : SourceFile) (start stop : Int) : String :=
  match f.edits.find? fun e => (e.start : Int) == start && (e.stop : Int) == stop with
  | some e => e.text
  | none =>
    let cs := f.text.toList
    String.ofList (slice cs (boundOffset cs.length start) (boundOffset cs.length stop))

/-- The text of the type of a property. -/
def typeText (f : SourceFile) (p : Property) : String :=
  f.spanText p.typeStart p.typeEnd

/-- The file with another type for a property. -/
def setType (f : SourceFile) (p : Property) (type : String) : SourceFile :=
  f.replaceSpan p.typeStart p.typeEnd type

/-- The file with a text appended, and what is wrong with the whole, if anything. The edits become
part of the text; when the text cannot be read, the statements stay those from before. -/
def append (f : SourceFile) (text : String) : SourceFile × Option ParseError :=
  let whole := f.fullText ++ text
  match parse whole with
  | .ok statements => (⟨whole, [], statements⟩, none)
  | .error e => (⟨whole, [], f.statements⟩, some e)

/-- The file of a text. -/
def ofText (text : String) : Except ParseError SourceFile :=
  (parse text).map fun statements => ⟨text, [], statements⟩

/-- The statements among which the generated ones stand: in an augmentation those of the first
module block, and those of the file when there is none. -/
def root (f : SourceFile) (isAugmented : Bool) : List Statement :=
  if isAugmented then ((firstModule? f.statements).map Prod.snd).getD f.statements else f.statements

end SourceFile

end SchemaTypings.Declaration
