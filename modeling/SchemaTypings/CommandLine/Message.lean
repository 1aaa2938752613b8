import SchemaTypings.CommandLine.Palette
import SchemaTypings.PathName

/-!
# Messages

What a run tells its user, line by line.
-/

namespace SchemaTypings.CommandLine

/-- A line that a run prints. -/
inductive Message
  /-- The command line is refused for a reason. -/
  | usage (text : String)
  | error (text : String)
  /-- The environment configures something that is no setting. -/
  | unknownSetting (key : String)
  | foundModels (names : List String)
  | wrote (path : PathName)
  | done
  deriving DecidableEq, Repr

/-- The text of a line, with its line feed. -/
def Message.render (p : Palette) (m : Message) : String :=
  (match m with
    | .usage text => p.bold ++ p.fail ++ "error:" ++ p.stop ++ " " ++ p.bold ++ text ++ p.stop
    | .error text => p.bold ++ p.fail ++ "error: " ++ p.stop ++ p.bold ++ text ++ p.stop
    | .unknownSetting key =>
      p.warning ++ "Skipping unknown environment config: " ++ key ++ p.stop
    | .foundModels names =>
      "Found models: " ++ p.bold ++ ", ".intercalate names ++ p.stop
    | .wrote path => "Wrote " ++ p.bold ++ path.text ++ p.stop
    | .done => p.green ++ p.bold ++ "Done." ++ p.stop) ++ "\n"

/-- The text of all lines. -/
def renderMessages (p : Palette) (messages : List Message) : String :=
  String.join (messages.map (·.render p))

end SchemaTypings.CommandLine
