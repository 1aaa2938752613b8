import SchemaTypings.Description.Basic
import SchemaTypings.Discovery.Module

/-!
# Descriptions of modules

A module is described by an array of pairs. A pair whose first part is `raise` or `import` says that
the module fails with a text or loads another one; any other pair exports a value under a name. A
model is exported by its name and the name of its one field.
-/

namespace SchemaTypings.Description

/-- The name of the field of a model that is described without one. -/
def defaultFieldName : String := "x"

/-- The schema with one text field. -/
def textSchema (fieldName : String) : Described Schema :=
  (Schema.build (.dict [(fieldName, .type .str)]) .null []).mapError .schema

/-- An exported value. -/
def exported (v : Json.Value) : Described Export := do
  match v.member? "model" with
  | none => return .other
  | some name =>
    let fieldName := (← optionalText (v.member? "field")).getD defaultFieldName
    return .model (← textOf name) (← textSchema fieldName)

/-- A step of a module. -/
def moduleStep (v : Json.Value) : Described ModuleStep := do
  match ← pairOf v with
  | ("raise", text) => return .fail (← textOf text)
  | ("import", name) => return .load (← textOf name)
  | (name, v) => return .export name (← exported v)

/-- A module; nothing describes one without steps. -/
def moduleOf (v : Json.Value) : Described Module := do
  (← optionalItems (some v)).mapM moduleStep

/-- The module that the text of a file describes; an empty one describes one without steps, and a
module with a malformed description fails. -/
def moduleOfText (text : String) : Module :=
  if text.isEmpty then []
  else
    match (Json.read text).toOption.map moduleOf with
    | some (.ok m) => m
    | some (.error e) => [.fail e.message]
    | none => [.fail DescribeError.malformed.message]

/-- The file tree that an array of paths and modules describes; each file holds the description of
its module. -/
def fileTree (location : String) (files : List Json.Value) : Described (FileTree String) := do
  let files ← files.mapM fun f => do
    let (path, m) ← pairOf f
    return (path, if m matches .null then "" else m.render)
  return .ofFiles location files

end SchemaTypings.Description
