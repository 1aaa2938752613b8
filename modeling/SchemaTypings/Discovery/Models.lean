import SchemaTypings.Discovery.Glob
import SchemaTypings.Discovery.Module
import SchemaTypings.Naming

/-!
# Finding models

The targets of a run are files, directories, glob patterns and dotted module names. Every module
that they lead to must export a model; it is looked for under the names that say so, then under
names derived from the module's own, and last under any name.
-/

namespace SchemaTypings

/-- The names under which a module of some name is expected to export its model. -/
def candidateNames (moduleName : String) : List String :=
  let capital := Text.capitalize moduleName
  let singular := Text.toLower (dropPlural moduleName)
  [capital, singular, singular ++ "s", capital ++ "s"]

/-- The model that is exported under a name. -/
def exportedModel? (exports : List (String × Export)) (name : String) : Option (String × Schema) :=
  match exports.lookup name with
  | some (.model model s) => some (model, s)
  | _ => none

/-- The model that a module of some name exports. -/
def findModel? (exports : List (String × Export)) (moduleName : String) :
    Option (String × Schema) :=
  let preferred := ["default", "model"] ++ candidateNames moduleName
  (preferred ++ Entries.keys exports).findSome? (exportedModel? exports)

/-- Whether a list of names comes before another one or is the same: the first difference counts,
and a list comes before those that it begins. -/
def precedes : List String → List String → Bool
  | [], _ => true
  | _ :: _, [] => false
  | a :: as, b :: bs => if a = b then precedes as bs else a ≤ b

/-- The paths of the module files below a directory, by the names of their parts. Those that only
make a package are left out. -/
def moduleFilesBelow {α : Type} (t : FileTree α) (path : PathName) (directory : List String) :
    List String :=
  let modules := (t.below directory).filter fun names =>
    let name := names.getLastD ""
    name.endsWith ".py" && name != "__init__.py"
  (modules.mergeSort precedes).map fun names => { path with parts := path.parts ++ names }.text

/-- The targets with directories and glob patterns replaced by what they lead to. -/
def expandTargets {α : Type} (t : FileTree α) (targets : List String) : List String :=
  targets.flatMap fun target =>
    let path := PathName.ofText target
    match (t.locate? path.text).filter t.hasDirectory with
    | some directory => moduleFilesBelow t path directory
    | none => if Wildcard.isWild target then Glob.paths t target else [target]

/-- The models that some targets lead to, in the order in which their names appeared. -/
def loadModels (t : FileTree Module) (targets : List String) :
    Except LoadError (List (String × Schema)) :=
  (expandTargets t targets).foldlM (fun models target => do
    let (m, moduleName) ← Module.ofTarget t target
    match findModel? m.exports moduleName with
    | some (model, s) => return Entries.put models model s
    | none => throw (.noModel target)) []

end SchemaTypings
