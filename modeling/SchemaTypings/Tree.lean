import SchemaTypings.Text.Cut
import SchemaTypings.Value

/-!
# Trees and dotted paths

A tree of fields corresponds to a flat list of fields under dotted paths. Only dictionaries with
something in them are descended into; lists, schemas, virtuals and empty dictionaries are leaves.
-/

namespace SchemaTypings

/-- The segments of a path: the texts between its dots. -/
def pathSegments (path : String) : List String :=
  Text.cut '.' path

namespace Tree

/-- The fields below a key: none when the key is absent or holds no dictionary. -/
def below (tree : Fields) (key : String) : Fields :=
  match tree.lookup key with
  | some (.dict fields) => fields
  | _ => []

/-- The tree with a value set at a list of segments. What stands in the way of the path and is no
dictionary gives way to one. -/
def setSegments (tree : Fields) : List String → Value → Fields
  | [], _ => tree
  | [leaf], v => Entries.put tree leaf v
  | part :: rest, v => Entries.put tree part (.dict (setSegments (below tree part) rest v))

/-- The tree with a value set at a path. -/
def setPath (tree : Fields) (path : String) (v : Value) : Fields :=
  setSegments tree (pathSegments path) v

/-- The value at a list of segments. -/
def getSegments? (tree : Fields) : List String → Option Value
  | [] => none
  | [leaf] => tree.lookup leaf
  | part :: rest =>
    match tree.lookup part with
    | some (.dict fields) => getSegments? fields rest
    | _ => none

/-- The value at a path. -/
def getPath? (tree : Fields) (path : String) : Option Value :=
  getSegments? tree (pathSegments path)

mutual
/-- Puts a value among flat fields under its path, or what is in it when it is a dictionary with
something in it. -/
def flattenValue (flat : Fields) (path : String) : Value → Fields
  | .dict (field :: fields) => flattenFields flat (path ++ ".") (field :: fields)
  | v => Entries.put flat path v
  termination_by structural v => v

/-- Puts the leaves of some fields among flat fields, each under its path after `lead`. -/
def flattenFields (flat : Fields) (lead : String) : Fields → Fields
  | [] => flat
  | (key, v) :: rest => flattenFields (flattenValue flat (lead ++ key) v) lead rest
  termination_by structural fields => fields
end

/-- The leaves of a tree under their dotted paths, each path after `lead`. -/
def flatten (tree : Fields) (lead : String) : Fields :=
  flattenFields [] lead tree

/-- The tree that flat fields make. -/
def unflatten (flat : Fields) : Fields :=
  flat.foldl (fun tree field => setPath tree field.1 field.2) []

/-- Whether a path is `path` or lies under it. -/
def isAtOrUnder (path key : String) : Bool :=
  key == path || (path ++ ".").toList.isPrefixOf key.toList

/-- The flat fields with a path and everything under it replaced by one value, which stands where
the first of them stood, or last when there was none. -/
def replacePath (flat : Fields) (path : String) (v : Value) : Fields :=
  let placed := flat.foldl (fun (result, isPlaced) (key, item) =>
    if isAtOrUnder path key then
      if isPlaced then (result, true) else (Entries.put result path v, true)
    else (Entries.put result key item, isPlaced)) (([], false) : Fields × Bool)
  if placed.2 then placed.1 else Entries.put placed.1 path v

end Tree

end SchemaTypings
