import SchemaTypings.CommandLine.Arguments
import SchemaTypings.CommandLine.Session
import SchemaTypings.Json.Reader

/-!
# Settings

The settings of a run begin with defaults. The environment may change them by a JSON object of
entries such as `"augment": {"value": true}`, which are taken in order, and the command line has the
last word.
-/

namespace SchemaTypings.CommandLine

/-- The settings of a run. -/
structure Settings where
  /-- The file or directory to write to. -/
  output : PathName
  augment : Bool
  imports : List String
  patch : Bool
  quiet : Bool
  /-- Whether the output was given without unpaired surrogates, which it shows as U+FFFD. -/
  isPlainOutput : Bool
  /-- Whether the imports were given without unpaired surrogates, which they show as U+FFFD. -/
  arePlainImports : Bool
  deriving DecidableEq, Repr

/-- The name of the environment variable that configures a run. -/
def configVariable : String := "MONGOTS_GENERATE_CONFIG"

/-- Why the configuration in the environment is refused. -/
inductive ConfigError
  | notJson (e : Json.ReadError)
  | notObject
  /-- An entry has no value. -/
  | noValue (key : String) (entry : Json.Value)
  | badOutput
  | badImports
  /-- The value of a switch is no boolean. -/
  | badSwitch (key : String)

/-- The kind of a JSON value, as messages name it. -/
def kindName : Json.Value → String
  | .null => "NoneType"
  | .bool _ => "bool"
  | .int _ => "int"
  | .real _ => "float"
  | .text _ | .unpaired _ => "str"
  | .array _ => "list"
  | .object _ => "dict"

/-- The message of a configuration error. -/
def ConfigError.message : ConfigError → String
  | .notJson e => configVariable ++ " is not valid JSON: " ++ e.message
  | .notObject => configVariable ++ " must be a JSON object"
  | .noValue key entry =>
    "Invalid " ++ configVariable ++ " value for " ++ Text.quoted key ++
      ": expected a JSON object with a \"value\" key, got " ++ kindName entry
  | .badOutput => configVariable ++ ": \"output\" must be a non-empty string"
  | .badImports => configVariable ++ ": \"imports\" must be a list of strings"
  | .badSwitch key => configVariable ++ ": \"" ++ key ++ "\" must be a boolean"

namespace Settings

/-- The file that is written unless a setting says otherwise. -/
def defaultOutput : PathName := .ofText "src/interfaces/mongoose.gen.ts"

/-- The settings that hold unless something changes them. -/
def start : Settings :=
  { output := defaultOutput, augment := false, imports := [], patch := true, quiet := false
    isPlainOutput := true, arePlainImports := true }

/-- The file to write: the output itself when it has the suffix of one, and otherwise a file in it.
-/
def outputFile (s : Settings) : PathName :=
  if s.output.suffix = ".ts" then s.output else s.output.child defaultOutput.name

/-- Whether a text that is written with the settings can be encoded. -/
def canEncode (s : Settings) (text : String) : Bool :=
  s.arePlainImports || !text.contains '\uFFFD'

/-- The boolean that a switch is set to. -/
def switchValue (key : String) : Json.Value → Except ConfigError Bool
  | .bool b => .ok b
  | _ => .error (.badSwitch key)

/-- The texts of an array of texts. -/
def textItems? : List Json.Value → Option (List String)
  | [] => some []
  | v :: rest =>
    match v.text? with
    | some s => (textItems? rest).map (s :: ·)
    | none => none

/-- What an entry of the configuration does. -/
inductive EntryEffect
  | change (s : Settings)
  /-- The key names no setting. -/
  | unknown
  /-- The key names the configuration itself. -/
  | reserved

/-- The effect of giving a setting a value. -/
def applyEntry (s : Settings) (key : String) (v : Json.Value) : Except ConfigError EntryEffect :=
  match key with
  | "output" =>
    match v.text? with
    | some t =>
      if t.isEmpty then .error .badOutput
      else .ok (.change { s with output := .ofText t, isPlainOutput := v.isPlain })
    | none => .error .badOutput
  | "imports" =>
    match v with
    | .array items =>
      match textItems? items with
      | some imports =>
        .ok (.change { s with imports, arePlainImports := items.all Json.Value.isPlain })
      | none => .error .badImports
    | _ => .error .badImports
  | "augment" => (switchValue key v).map fun b => .change { s with augment := b }
  | "patch" => (switchValue key v).map fun b => .change { s with patch := b }
  | "quiet" => (switchValue key v).map fun b => .change { s with quiet := b }
  | "config" => .ok .reserved
  | _ => .ok .unknown

/-- Stops a session with the message of a configuration error. -/
def refuse {α : Type} (e : ConfigError) : Session α :=
  Session.abort e.message 22

/-- The settings after the entries of the configuration. -/
def applyEntries (s : Settings) : List (String × Json.Value) → Session Settings
  | [] => return s
  | (key, entry) :: rest =>
    match entry.member? "value" with
    | none => refuse (.noValue key entry)
    | some v =>
      match applyEntry s key v with
      | .error e => refuse e
      | .ok (.change s) => applyEntries s rest
      | .ok .unknown => do
        if !s.quiet then Session.say (.unknownSetting key)
        applyEntries s rest
      | .ok .reserved => throw (.failure .reservedSetting)

/-- The settings after the configuration, which may be absent or empty. -/
def applyConfig (s : Settings) (config : Option String) : Session Settings :=
  match config.filter (!·.isEmpty) with
  | none => return s
  | some text =>
    match Json.read text with
    | .error e => refuse (.notJson e)
    | .ok (.object entries) => applyEntries s entries
    | .ok _ => refuse .notObject

/-- The settings after the command line. -/
def applyArguments (s : Settings) (a : Arguments) : Settings :=
  { output := (a.output.map PathName.ofText).getD s.output
    augment := a.augment.getD s.augment
    imports := if a.imports.isEmpty then s.imports else a.imports
    patch := a.patch.getD s.patch
    quiet := a.quiet.getD s.quiet
    isPlainOutput := a.output.isSome || s.isPlainOutput
    arePlainImports := !a.imports.isEmpty || s.arePlainImports }

/-- The settings that the environment and the command line make. -/
def prepare (config : Option String) (a : Arguments) : Session Settings := do
  return (← start.applyConfig config).applyArguments a

end Settings

end SchemaTypings.CommandLine
