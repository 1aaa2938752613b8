import SchemaTypings.Declaration.Source
import SchemaTypings.Interface
import SchemaTypings.Model.Known

/-!
# Putting known types into a file

The generated declarations hold placeholders for the types of functions and virtuals. The patch
finds the members by name and replaces the placeholders whose type is known. It is a list of edits,
so that nothing but the spans of the members changes.
-/

namespace SchemaTypings

open Declaration

/-- A known type that says something. The name is compared as it was read, so that a surrogate unit
that was left alone in it counts as the replacement character. -/
def knownFor? (known : List (String × String)) (name : String) : Option String :=
  (known.lookup name).filter (!·.isEmpty)

/-- The edits that give the properties with a known type that type, as `type` writes it. -/
def propertyEdits (properties : List Property) (known : List (String × String))
    (type : String → String) : List Edit :=
  properties.filterMap fun p =>
    (knownFor? known p.name).map fun s => ⟨p.typeStart, p.typeEnd, type s⟩

/-- The ending of the alias that holds the functions in a role. -/
def Role.suffix : Role → String
  | .methods => "Methods"
  | .statics => "Statics"
  | .query => "Queries"

/-- The edits for the functions of a model in a role: none when the alias is no object type. -/
def functionEdits (root : List Statement) (model : String) (known : KnownTypes) (role : Role) :
    List Edit :=
  match alias? root (model ++ role.suffix) with
  | some (some properties) =>
    propertyEdits properties (known.signatures role) (boundSignature · role model)
  | _ => []

/-- The edits for the virtuals on an interface. -/
def virtualEdits (root : List Statement) (interface : String) (known : KnownTypes) : List Edit :=
  propertyEdits ((interface? root interface).getD []) known.virtuals id

/-- The edits for a model, and what keeps the options of its schema from being read, if anything:
then the lean interface is left as it is. -/
def modelEdits (root : List Statement) (schemas : List (String × Schema)) (model : String)
    (known : KnownTypes) : List Edit × Option SchemaError :=
  let functions := [Role.methods, .statics, .query].flatMap (functionEdits root model known)
  -- the options are not looked at when no virtual has a known type
  if known.virtuals.isEmpty then (functions, none)
  else
    let document := functions ++ virtualEdits root (model ++ "Document") known
    match schemas.lookup model with
    | none => (document, none)
    | some schema =>
      match includesVirtuals schema.options with
      | .ok true => (document ++ virtualEdits root model known, none)
      | .ok false => (document, none)
      | .error e => (document, some e)

/-- The edits for some models, up to the first whose options cannot be read. -/
def patchEdits (root : List Statement) (schemas : List (String × Schema)) :
    List (String × KnownTypes) → List Edit × Option SchemaError
  | [] => ([], none)
  | (model, known) :: rest =>
    match modelEdits root schemas model known with
    | (edits, some e) => (edits, some e)
    | (edits, none) =>
      let (others, e) := patchEdits root schemas rest
      (edits ++ others, e)

/-- The file with edits made one after the other. -/
def Declaration.SourceFile.edit (f : SourceFile) (edits : List Edit) : SourceFile :=
  edits.foldl (fun f e => f.replaceSpan e.start e.stop e.text) f

/-- The file with the known types in the place of the placeholders, and what stopped the patch, if
anything. -/
def patch (f : SourceFile) (known : List (String × KnownTypes)) (schemas : List (String × Schema))
    (isAugmented : Bool) : SourceFile × Option SchemaError :=
  let (edits, e) := patchEdits (f.root isAugmented) schemas known
  (f.edit edits, e)

end SchemaTypings
