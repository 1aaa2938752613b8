import SchemaTypings.Discovery.FileTree
import SchemaTypings.Discovery.Wildcard

/-!
# Glob patterns

A glob pattern is a path in whose parts wildcards may stand. A part `**` stands for any number of
directories, as the last part also for what is in them. Names that begin with a dot are matched only
by a part that begins with one, and never by `**`.

The paths found keep the text of the pattern as far as it has no wildcards. From there on the
pattern is taken part by part: every part leads from each directory found so far to some names in
it.
-/

namespace SchemaTypings.Glob

open Wildcard

variable {α : Type}

/-- Whether a name begins with a dot. -/
def isHidden (name : String) : Bool :=
  name.startsWith "."

/-- A path with another one after it. -/
def join (path name : String) : String :=
  if path.isEmpty || path.endsWith "/" then path ++ name else path ++ "/" ++ name

/-- The names of the directory at a path, which is the current one when it is empty. -/
def listing (t : FileTree α) (directory : String) (onlyDirectories : Bool) : List String :=
  let place := if directory.isEmpty then some [] else t.locate? directory
  match place.filter t.hasDirectory with
  | none => []
  | some here =>
    (t.namesIn here).filter fun name => !onlyDirectories || t.hasDirectory (here ++ [name])

/-- The paths of all that lies below a directory and is not hidden, to some depth. -/
def descend (t : FileTree α) (onlyDirectories : Bool) : (depth : Nat) → String → List String
  | 0, _ => []
  | depth + 1, directory =>
    ((listing t directory onlyDirectories).filter (!isHidden ·)).flatMap fun name =>
      let path := join directory name
      name :: (descend t onlyDirectories depth path).map (join name ·)

/-- How deeply the files of a tree lie. -/
def treeDepth (t : FileTree α) : Nat :=
  t.files.foldl (fun depth f => max depth f.1.length) 0

/-- What a part of a pattern stands for in a directory. -/
def namesFor (t : FileTree α) (directory part : String) (onlyDirectories : Bool) : List String :=
  if part = "**" then
    let here := if directory.isEmpty || t.isDirectory directory then [""] else []
    here ++ descend t onlyDirectories (treeDepth t) directory
  else if isWild part then
    (listing t directory onlyDirectories).filter fun name =>
      (isHidden part || !isHidden name) && isMatch part name
  else if part.isEmpty then if t.isDirectory directory then [""] else []
  else if t.exists? (join directory part) then [part]
  else []

/-- The paths that the parts of a pattern lead to from some directories. All but the last part lead
to directories only. -/
def follow (t : FileTree α) : (parts : List String) → (directories : List String) → List String
  | [], directories => directories
  | part :: rest, directories =>
    follow t rest (directories.flatMap fun directory =>
      (namesFor t directory part !rest.isEmpty).map (join directory ·))

/-- The parts after the first one with a wildcard: the slashes between them count as one. -/
def laterParts (parts : List String) : List String :=
  match parts.getLast? with
  | none => []
  | some last => parts.dropLast.filter (!·.isEmpty) ++ [last]

/-- The text of the parts before the first one with a wildcard. -/
def literalLead (parts : List String) : String :=
  let lead := "/".intercalate parts
  let trimmed := (lead.toList.reverse.dropWhile (· == '/')).reverse
  if trimmed.isEmpty && !parts.isEmpty then "/" else String.ofList trimmed

/-- The paths that a glob pattern matches, in the order of their texts. The directory in which the
search begins has no name and is not among them. -/
def paths (t : FileTree α) (pattern : String) : List String :=
  let parts := Text.cut '/' pattern
  match parts.dropWhile (!isWild ·) with
  | [] => if t.exists? pattern then [pattern] else []
  | wild :: rest =>
    let lead := literalLead (parts.takeWhile (!isWild ·))
    let found := follow t (wild :: laterParts rest) [lead]
    (match found with
      | "" :: others => others
      | _ => found).mergeSort (· ≤ ·)

end SchemaTypings.Glob
