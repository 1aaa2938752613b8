import SchemaTypings.CommandLine.Run
import SchemaTypings.Proofs.CommandLine.Configuration

/-!
# What a run does to the files

`Does` says what a session comes to: its result and the files that it leaves, whatever was printed
before. It composes along the steps of a session, so that a run is its steps in front of the
writing, which leave all files as they are, and then the writing (`runProgram_does`).
-/

namespace SchemaTypings

/-! ## Writing to a tree -/

namespace FileTree

variable {α κ : Type} [BEq κ] [LawfulBEq κ] [DecidableEq κ]

/-- Of entries of which those of a key gave way to a new one, the new one is found last. -/
theorem lookup_replaced (entries : List (κ × α)) (key other : κ) (v : α) :
    (entries.filter (·.1 != key) ++ [(key, v)]).reverse.lookup other =
      if other = key then some v else entries.reverse.lookup other := by
  rw [List.reverse_append, List.reverse_singleton, List.singleton_append, List.lookup_cons,
    ← List.filter_reverse]
  -- the new entry is the first from the end, and only those of its key are left out behind it
  by_cases h : other = key
  · simp [h]
  · simp only [beq_false_of_ne h, h, if_false]
    exact Entries.lookup_filter_of_key (· != key) (by simpa using h) _

/-- A file that is written at a place has its contents there, and all others keep theirs. -/
theorem at?_put (t : FileTree α) (place other : Place) (contents : α) :
    (t.put place contents).at? other = if other = place then some contents else t.at? other := by
  cases place <;> cases other <;> simp only [put, at?, read?, lookup_replaced] <;> simp

theorem put_put (t : FileTree α) (place : Place) (first second : α) :
    (t.put place first).put place second = t.put place second := by
  cases place <;> simp [put]

end FileTree

namespace CommandLine

namespace Session

variable {α β : Type}

/-! ## Outcomes -/

/-- What comes of some files: a result, and the files that are left. -/
abbrev Outcome (α : Type) := FileTree String → Except Stop α × FileTree String

/-- A session has an outcome, whatever was printed before. -/
def Does (s : Session α) (outcome : Outcome α) : Prop :=
  ∀ desk : Desk, ∃ messages, s.run.run desk =
    ((outcome desk.files).1, ⟨(outcome desk.files).2, messages⟩)

theorem Ends.does {s : Session α} {r : Except Stop α} {messages : List Message}
    (h : Ends s r messages) : Does s fun files => (r, files) :=
  fun desk => ⟨_, h desk⟩

/-- What is printed first makes no difference. -/
theorem Does.say {s : Session α} {outcome : Outcome α} (h : Does s outcome) (m : Message) :
    Does (do Session.say m; s) outcome :=
  fun desk => h { desk with messages := desk.messages ++ [m] }

theorem Does.sayUnless {s : Session α} {outcome : Outcome α} (h : Does s outcome) (quiet : Bool)
    (m : Message) :
    Does (do
      if !quiet then Session.say m
      s) outcome := by
  cases quiet with
  | true => exact h
  | false => exact h.say m

/-- What follows is done on the files that are left. -/
theorem Does.bind {x : Session α} {f : α → Session β} {first : Outcome α} {next : α → Outcome β}
    (hx : Does x first) (hf : ∀ a, Does (f a) (next a)) :
    Does (x >>= f) fun files => match first files with
      | (.ok a, files') => next a files'
      | (.error e, files') => (.error e, files') := by
  intro desk
  obtain ⟨messages, hx⟩ := hx desk
  dsimp only
  rw [ExceptT.run_bind, StateT.run_bind, hx]
  cases first desk.files with
  | mk r files =>
    cases r with
    | error e => exact ⟨messages, rfl⟩
    | ok a => exact hf a ⟨files, messages⟩

theorem Does.congr {s : Session α} {outcome other : Outcome α} (h : Does s outcome)
    (heq : ∀ files, outcome files = other files) : Does s other :=
  (funext heq : outcome = other) ▸ h

/-- The outcome is that of performing the session. -/
theorem Does.perform {s : Session α} {outcome : Outcome α} (h : Does s outcome)
    (files : FileTree String) :
    ∃ messages, s.perform files = ((outcome files).1, ⟨(outcome files).2, messages⟩) :=
  h ⟨files, []⟩

/-! ## Steps -/

/-- What reads the desk goes on with it. -/
theorem run_get_bind (f : Desk → Session α) (desk : Desk) :
    (do f (← get) : Session α).run.run desk = (f desk).run.run desk :=
  rfl

/-- The file that is opened loses its text, and gets the new one when that can be encoded. -/
theorem write_does (path : PathName) (isPlain : Bool) (contents : String) (isEncodable : Bool) :
    Does (write path isPlain contents isEncodable) fun files =>
      match openedPlace files path isPlain with
      | .error stop => (.error stop, files)
      | .ok place =>
        if isEncodable then (.ok (), files.put place contents)
        else (.error (.failure (.unencodableText path)), files.put place "") := by
  intro desk
  refine ⟨desk.messages, ?_⟩
  unfold write
  rw [run_get_bind]
  dsimp only
  cases openedPlace desk.files path isPlain with
  | error stop => rfl
  | ok place =>
    cases isEncodable with
    | false => rfl
    | true =>
      -- the file is put twice: without text when it is opened, and then with the new one
      have hput := desk.files.put_put place "" contents
      exact congrArg (fun files => ((.ok () : Except Stop Unit), Desk.mk files desk.messages)) hput

end Session

open Session (Does Ends Outcome)

variable (source : ModelSource) (s : Settings)

/-- The models of a run: there has to be one. -/
def runModels (files : FileTree String) (targets : List String) :
    Except Stop (List (String × Schema)) :=
  match source files targets with
  | .ok [] => .error (.exit 2)
  | .ok models => .ok models
  | .error e => .error (if e.message?.isSome then .exit 2 else .failure (.load e))

theorem findModels_does (targets : List String) :
    Does (findModels source targets) fun files => (runModels source files targets, files) := by
  intro desk
  unfold findModels runModels
  rw [Session.run_get_bind]
  dsimp only
  cases source desk.files targets with
  | error e =>
    dsimp only
    cases e.message? <;> exact ⟨_, rfl⟩
  | ok models => cases models <;> exact ⟨_, rfl⟩

/-- The text of a run: the declarations have to be read. -/
def runText (models : List (String × Schema)) : Except Stop String :=
  match generate models ⟨s.augment, s.imports⟩ s.patch with
  | .ok file => .ok file.fullText
  | .error (.parse (.badName e)) => .error (.failure (.generate (.parse (.badName e))))
  | .error (.parse _) => .error (.exit 2)
  | .error (.schema e) => .error (.failure (.generate (.schema e)))

theorem declarations_does (models : List (String × Schema)) :
    Does (declarations s models) fun files => (runText s models, files) := by
  intro desk
  dsimp only
  unfold declarations runText
  cases generate models ⟨s.augment, s.imports⟩ s.patch with
  | ok file => exact ⟨_, rfl⟩
  | error e =>
    cases e with
    | schema e => exact ⟨_, rfl⟩
    | parse e => cases e <;> exact ⟨_, rfl⟩

/-- What a run comes to in front of the writing: the text, and the place of its file. -/
def planned (targets : List String) (files : FileTree String) :
    Except Stop (String × FileTree.Place) := do
  let models ← runModels source files targets
  let text ← runText s models
  return (text, ← Session.openedPlace files s.outputFile s.isPlainOutput)

/-- What a run with some settings does to the files. -/
def generatorOutcome (targets : List String) : Outcome Output := fun files =>
  match planned source s targets files with
  | .error stop => (.error stop, files)
  | .ok (text, place) =>
    if s.canEncode text then (.ok ⟨s.outputFile, text⟩, files.put place text)
    else (.error (.failure (.unencodableText s.outputFile)), files.put place "")

theorem runGenerator_does (targets : List String) :
    Does (runGenerator source s targets) (generatorOutcome source s targets) := by
  -- from the end to the beginning: each step is put in front of what follows it
  have hend : ∀ text, Does (do
      if !s.quiet then Session.say (.wrote s.outputFile)
      Session.say .done
      return (⟨s.outputFile, text⟩ : Output)) fun files => (.ok ⟨s.outputFile, text⟩, files) :=
    fun text => ((Ends.return _).does.say .done).sayUnless s.quiet (.wrote s.outputFile)
  have hwrite := fun text => (Session.write_does s.outputFile s.isPlainOutput text
    (s.canEncode text)).bind fun _ => hend text
  have htext := fun models => ((declarations_does s models).bind hwrite).sayUnless s.quiet
    (.foundModels (Entries.keys models))
  refine ((findModels_does source targets).bind htext).congr fun files => ?_
  simp only [generatorOutcome, planned, bind, Except.bind, pure, Except.pure]
  cases runModels source files targets with
  | error stop => rfl
  | ok models =>
    dsimp only
    cases runText s models with
    | error stop => rfl
    | ok text =>
      dsimp only
      cases Session.openedPlace files s.outputFile s.isPlainOutput with
      | error stop => rfl
      | ok place =>
        dsimp only
        cases s.canEncode text <;> rfl

/-- The arguments of a run. -/
def runArguments (words : List String) : Except Stop Arguments :=
  match Request.ofWords words with
  | .ok (.run a) => .ok a
  | .ok .help => .error (.exit 0)
  | .error _ => .error (.exit 2)

theorem readArguments_does (words : List String) :
    Does (readArguments words) fun files => (runArguments words, files) := by
  intro desk
  unfold readArguments runArguments
  cases Request.ofWords words with
  | error e => exact ⟨_, rfl⟩
  | ok request => cases request <;> exact ⟨_, rfl⟩

theorem prepare_does (config : Option String) (a : Arguments) :
    Does (Settings.prepare config a) fun files =>
      (((Settings.prepare config a).perform files).1, files) := by
  obtain ⟨r, messages, hends, -⟩ := Settings.exists_ends_applyConfig .start config
  have hprepare := hends.map (Settings.applyArguments · a)
  refine hprepare.does.congr fun files => ?_
  rw [Settings.prepare, hprepare.perform files]

/-- What a run does to the files when these are its settings, if it has any. -/
def settledOutcome (settings : Except Stop Settings) (targets : List String) : Outcome Output :=
  fun files =>
  match settings with
  | .error stop => (.error stop, files)
  | .ok s => generatorOutcome source s targets files

/-- What a run does to the files. -/
def programOutcome (words : List String) (config : Option String) : Outcome Output := fun files =>
  match runArguments words with
  | .error stop => (.error stop, files)
  | .ok a => settledOutcome source ((Settings.prepare config a).perform files).1 a.paths files

theorem runProgram_does (words : List String) (config : Option String) :
    Does (runProgram source words config) (programOutcome source words config) := by
  refine ((readArguments_does words).bind fun a => (prepare_does config a).bind fun s =>
    runGenerator_does source s a.paths).congr fun files => ?_
  unfold programOutcome settledOutcome
  cases runArguments words with
  | error stop => rfl
  | ok a =>
    dsimp only
    cases ((Settings.prepare config a).perform files).1 <;> rfl

end CommandLine

end SchemaTypings
