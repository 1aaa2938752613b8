import SchemaTypings.Text.Digit
import SchemaTypings.Text.Quoted

/-!
# Arguments

The command line is a list of words. First every word is classed as an option, an operand or the
separator `--`, after which all words are operands; a long option may be shortened as long as one
option fits. Then the words are taken in order: an option takes its value from its own word or from
the next one, and the first run of operands gives the paths.
-/

namespace SchemaTypings.CommandLine

/-- What an option asks for. -/
inductive Action
  | help
  | output
  | imports
  | augment (isOn : Bool)
  | patch (isOn : Bool)
  | quiet (isOn : Bool)
  | debug
  deriving DecidableEq, Repr, Inhabited

/-- The options by their names. -/
def optionTable : List (String × Action) :=
  [("-h", .help), ("--help", .help), ("-o", .output), ("--output", .output),
    ("--augment", .augment true), ("--no-augment", .augment false), ("--imports", .imports),
    ("--patch", .patch true), ("--no-patch", .patch false), ("-q", .quiet true),
    ("--quiet", .quiet true), ("--no-quiet", .quiet false), ("--debug", .debug)]

namespace Action

/-- Whether an option takes a value. -/
def takesValue : Action → Bool
  | .output | .imports => true
  | _ => false

/-- Whether two actions belong to one option. -/
def sameOption : Action → Action → Bool
  | .augment _, .augment _ | .patch _, .patch _ | .quiet _, .quiet _ => true
  | a, b => a == b

/-- The names of the option of an action, as messages give them. -/
def label (a : Action) : String :=
  "/".intercalate ((optionTable.filter fun entry => entry.2.sameOption a).map Prod.fst)

end Action

/-- Why a command line is refused. -/
inductive UsageError
  /-- A shortened option fits several. -/
  | ambiguous (word : String) (names : List String)
  | missingValue (option : Action)
  /-- An option that takes none has a value. -/
  | unwantedValue (option : Action) (v : String)
  | missingPaths
  | unrecognized (words : List String)
  deriving DecidableEq, Repr

/-- The message of a usage error. -/
def UsageError.message : UsageError → String
  | .ambiguous word names =>
    "ambiguous option: " ++ word ++ " could match " ++ ", ".intercalate names
  | .missingValue option => "argument " ++ option.label ++ ": expected one argument"
  | .unwantedValue option v =>
    "argument " ++ option.label ++ ": ignored explicit argument " ++ Text.quoted v
  | .missingPaths => "the following arguments are required: PATH"
  | .unrecognized words => "unrecognized arguments: " ++ " ".intercalate words

/-! ## Classing words -/

/-- What follows the name of an option in its own word. -/
inductive Attached
  | nothing
  /-- What stands right behind a short name. -/
  | joined (rest : List Char)
  /-- What stands after an equals sign. -/
  | assigned (v : List Char)
  deriving DecidableEq, Repr

/-- A word of the command line. -/
inductive Word
  | operand (s : String)
  | separator
  | option (a : Action) (attached : Attached)
  /-- A word that looks like an option and is none. -/
  | unknown (s : String)
  deriving DecidableEq, Repr

/-- A word cut at its first equals sign. -/
def cutAtEquals (cs : List Char) : List Char × Attached :=
  match cs.dropWhile (· != '=') with
  | _ :: v => (cs.takeWhile (· != '='), .assigned v)
  | [] => (cs, .nothing)

/-- The options that a word without an exact match may stand for. Long ones may be shortened before
an equals sign; what follows a short one in its word may be its value or further short ones. -/
def abbreviated (word : List Char) : List (String × Action × Attached) :=
  match word with
  | '-' :: '-' :: _ =>
    let (lead, attached) := cutAtEquals word
    (optionTable.filter fun entry => lead.isPrefixOf entry.1.toList).map
      fun (name, a) => (name, a, attached)
  | '-' :: short :: rest =>
    optionTable.filterMap fun (name, a) =>
      if name.toList = ['-', short] then some (name, a, .joined rest)
      else if word.isPrefixOf name.toList then some (name, a, .nothing)
      else none
  | _ => []

/-- Whether some characters are a negative number, with at most one line feed after it. -/
def isNegativeNumber (word : List Char) : Bool :=
  match word with
  | '-' :: rest =>
    let ends := fun cs => cs = [] || cs = ['\n']
    let whole := rest.takeWhile Text.isDecimalDigit
    match rest.dropWhile Text.isDecimalDigit with
    | '.' :: fraction =>
      !(fraction.takeWhile Text.isDecimalDigit).isEmpty &&
        ends (fraction.dropWhile Text.isDecimalDigit)
    | after => !whole.isEmpty && ends after
  | _ => false

/-- The class of a word in front of a separator. -/
def Word.ofText (s : String) : Except UsageError Word :=
  if !s.startsWith "-" || s = "-" then .ok (.operand s)
  else
    match optionTable.lookup s with
    | some a => .ok (.option a .nothing)
    | none =>
      -- a name in full before an equals sign wins over shortened ones
      let (name, attached) := cutAtEquals s.toList
      match attached, optionTable.lookup (String.ofList name) with
      | .assigned _, some a => .ok (.option a attached)
      | _, _ =>
        match abbreviated s.toList with
        | [(_, a, attached)] => .ok (.option a attached)
        | [] =>
          .ok (if isNegativeNumber s.toList || s.contains ' ' then .operand s else .unknown s)
        | several => .error (.ambiguous s (several.map (·.1)))

/-- The classes of the words of a command line. -/
def Word.ofTexts : List String → Except UsageError (List Word)
  | [] => .ok []
  | "--" :: rest => .ok (.separator :: rest.map .operand)
  | s :: rest => do return (← Word.ofText s) :: (← Word.ofTexts rest)

/-! ## Taking words -/

/-- What the command line asks for, as far as it says. -/
structure Arguments where
  paths : List String
  output : Option String
  augment : Option Bool
  /-- The import lines in order. -/
  imports : List String
  patch : Option Bool
  quiet : Option Bool
  debug : Bool
  deriving DecidableEq, Repr, Inhabited

/-- What a command line comes to. -/
inductive Request
  /-- Only a description of the options is wanted. -/
  | help
  | run (a : Arguments)
  deriving DecidableEq, Repr

/-- What the options in one word ask for. -/
structure OptionGroup where
  /-- The options without a value, in order. -/
  switches : List Action
  /-- The option that takes a value, at the end, with the value if it is in the same word. -/
  valued : Option (Action × Option String)
  /-- What is left when it is no option. -/
  rest : Option String
  deriving Repr

namespace OptionGroup

/-- The group with a switch in front. -/
def withSwitch (a : Action) (g : OptionGroup) : OptionGroup :=
  { g with switches := a :: g.switches }

/-- An option with nothing attached. -/
def alone (a : Action) : OptionGroup :=
  if a.takesValue then ⟨[], some (a, none), none⟩ else ⟨[a], none, none⟩

/-- An option with a value after an equals sign. -/
def withValue (a : Action) (v : List Char) : Except UsageError OptionGroup :=
  if a.takesValue then .ok ⟨[], some (a, some (String.ofList v)), none⟩
  else .error (.unwantedValue a (String.ofList v))

/-- A short option with characters right behind it: its value, or further short options. -/
def ofJoined (a : Action) : List Char → Except UsageError OptionGroup
  | [] => .ok (alone a)
  | c :: rest =>
    if a.takesValue then .ok ⟨[], some (a, some (String.ofList (c :: rest))), none⟩
    -- a dash begins no further option
    else if c = '-' then .error (.unwantedValue a (String.ofList (c :: rest)))
    else
      match optionTable.lookup (String.ofList ['-', c]) with
      | none => .ok ⟨[a], none, some (String.ofList ('-' :: c :: rest))⟩
      | some next =>
        (match rest with
          | '=' :: v => withValue next v
          | _ => ofJoined next rest).map (withSwitch a)

/-- The options in a word that begins with one of them. -/
def ofOption (a : Action) : Attached → Except UsageError OptionGroup
  | .nothing => .ok (alone a)
  | .joined rest => ofJoined a rest
  | .assigned v => withValue a v

end OptionGroup

/-- What has been taken of the command line so far. -/
structure Progress where
  settings : Arguments
  /-- Whether the run of paths has begun. -/
  hasPaths : Bool
  /-- Whether no option has ended the run of paths. -/
  inPaths : Bool
  /-- The words that nothing takes. -/
  extras : List String
  deriving Repr

namespace Progress

/-- Nothing has been taken. -/
def start : Progress :=
  { settings :=
      { paths := [], output := none, augment := none, imports := [], patch := none, quiet := none,
        debug := false }
    hasPaths := false
    inPaths := false
    extras := [] }

/-- The progress after an operand: a path of the first run, or a word too many. -/
def operand (p : Progress) (s : String) : Progress :=
  if p.hasPaths && !p.inPaths then { p with extras := p.extras ++ [s] }
  else
    { p with
      settings := { p.settings with paths := p.settings.paths ++ [s] }
      hasPaths := true
      inPaths := true }

/-- The progress after the separator, which counts only behind the run of paths. -/
def separator (p : Progress) : Progress :=
  if p.hasPaths && !p.inPaths then { p with extras := p.extras ++ ["--"] } else p

/-- The progress with the run of paths ended and some words left over. -/
def endPaths (p : Progress) (extras : List String) : Progress :=
  { p with inPaths := false, extras := p.extras ++ extras }

/-- The progress after an option without a value; nothing when help is asked for. -/
def switch? (p : Progress) : Action → Option Progress
  | .help => none
  | .augment isOn => some { p with settings := { p.settings with augment := some isOn } }
  | .patch isOn => some { p with settings := { p.settings with patch := some isOn } }
  | .quiet isOn => some { p with settings := { p.settings with quiet := some isOn } }
  | .debug => some { p with settings := { p.settings with debug := true } }
  | .output | .imports => some p

/-- The progress after an option with a value. -/
def setValue (p : Progress) (a : Action) (v : String) : Progress :=
  match a with
  | .output => { p with settings := { p.settings with output := some v } }
  | .imports => { p with settings := { p.settings with imports := p.settings.imports ++ [v] } }
  | _ => p

/-- The request when all words are taken. -/
def finish (p : Progress) : Except UsageError Request :=
  if !p.hasPaths then .error .missingPaths
  else if p.extras.isEmpty then .ok (.run p.settings)
  else .error (.unrecognized p.extras)

/-- The progress after the options in one word, in front of some words, and whether the first of
those is taken for a value; nothing when help is asked for. -/
def option? (p : Progress) (a : Action) (attached : Attached) (next : List Word) :
    Except UsageError (Option (Progress × Bool)) := do
  let group ← OptionGroup.ofOption a attached
  let switched := group.switches.foldlM switch? (p.endPaths group.rest.toList)
  match group.valued, next with
  | none, _ => return switched.map fun p => (p, false)
  | some (a, some v), _ => return switched.map fun p => (p.setValue a v, false)
  | some (a, none), .operand v :: _ => return switched.map fun p => (p.setValue a v, true)
  | some (a, none), _ => throw (.missingValue a)

/-- Takes the words in order. -/
def take (p : Progress) : List Word → Except UsageError Request
  | [] => p.finish
  | .operand s :: rest => (p.operand s).take rest
  | .separator :: rest => p.separator.take rest
  | .unknown s :: rest => (p.endPaths [s]).take rest
  | .option a attached :: rest => do
    match ← p.option? a attached rest with
    | none => return .help
    | some (p, false) => p.take rest
    | some (p, true) =>
      match rest with
      | [] => p.finish
      | _ :: rest => p.take rest

end Progress

/-- The request of a command line. -/
def Request.ofWords (words : List String) : Except UsageError Request := do
  Progress.start.take (← Word.ofTexts words)

end SchemaTypings.CommandLine
