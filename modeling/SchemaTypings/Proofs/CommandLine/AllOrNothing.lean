import SchemaTypings.Proofs.CommandLine.Quiet
import SchemaTypings.Proofs.Generation.Imports

/-!
# All or nothing

A run that returns has written one file, and a run that stops has written none
(`runProgram_all_or_nothing`), with one exception: the file is opened before its text is encoded, so
that a text with an unpaired surrogate, which the imports of the configuration may hold, leaves the
file empty (`runProgram_leaves_empty_file`).
-/

namespace SchemaTypings.CommandLine

variable (source : ModelSource)

/-! ## Reaching the file -/

theorem runModels_eq_ok_iff {files : FileTree String} {targets : List String}
    {models : List (String × Schema)} :
    runModels source files targets = .ok models ↔
      source files targets = .ok models ∧ models ≠ [] := by
  unfold runModels
  split
  case h_1 hnone => simp [hnone]
  case h_2 models' hne hmodels =>
    rw [hmodels]
    simp only [Except.ok.injEq]
    exact ⟨fun h => ⟨h, h ▸ fun hnil => hne hnil⟩, And.left⟩
  case h_3 e herror => simp [herror]

theorem runText_eq_ok_iff {s : Settings} {models : List (String × Schema)} {text : String} :
    runText s models = .ok text ↔
      ∃ file, generate models ⟨s.augment, s.imports⟩ s.patch = .ok file ∧ file.fullText = text := by
  unfold runText
  split <;> simp_all

/-- A run gets as far as opening its file: the command line and the configuration make settings,
the models of the targets are found, their declarations are generated, and the output can be opened
at a place. -/
structure Reaches (words : List String) (config : Option String) (files : FileTree String)
    (s : Settings) (file : Declaration.SourceFile) (place : FileTree.Place) : Prop where
  exists_models : ∃ a models, Request.ofWords words = .ok (.run a) ∧
    ((Settings.prepare config a).perform files).1 = .ok s ∧
    source files a.paths = .ok models ∧ models ≠ [] ∧
    generate models ⟨s.augment, s.imports⟩ s.patch = .ok file
  opened : Session.openedPlace files s.outputFile s.isPlainOutput = .ok place

theorem planned_eq_ok_iff {s : Settings} {targets : List String} {files : FileTree String}
    {text : String} {place : FileTree.Place} :
    planned source s targets files = .ok (text, place) ↔
      ∃ models file, source files targets = .ok models ∧ models ≠ [] ∧
        generate models ⟨s.augment, s.imports⟩ s.patch = .ok file ∧ file.fullText = text ∧
        Session.openedPlace files s.outputFile s.isPlainOutput = .ok place := by
  simp only [planned, exceptBind_ok, runModels_eq_ok_iff, runText_eq_ok_iff]
  constructor
  · rintro ⟨models, ⟨hmodels, hne⟩, _, ⟨file, hfile, htext⟩, _, hplace, heq⟩
    obtain ⟨rfl, rfl⟩ := Prod.mk.inj (Except.ok.inj heq)
    exact ⟨models, file, hmodels, hne, hfile, htext, hplace⟩
  · rintro ⟨models, file, hmodels, hne, hfile, htext, hplace⟩
    exact ⟨models, ⟨hmodels, hne⟩, text, ⟨file, hfile, htext⟩, place, hplace, rfl⟩

theorem runArguments_eq_ok_iff {words : List String} {a : Arguments} :
    runArguments words = .ok a ↔ Request.ofWords words = .ok (.run a) := by
  unfold runArguments
  split <;> simp_all

/-- A run that opens its file replaces the text, unless that cannot be encoded: then the file has no
text. -/
theorem Reaches.programOutcome {words : List String} {config : Option String}
    {files : FileTree String} {s : Settings} {file : Declaration.SourceFile}
    {place : FileTree.Place} (h : Reaches source words config files s file place) :
    programOutcome source words config files =
      if s.canEncode file.fullText then
        (.ok ⟨s.outputFile, file.fullText⟩, files.put place file.fullText)
      else (.error (.failure (.unencodableText s.outputFile)), files.put place "") := by
  obtain ⟨⟨a, models, hwords, hs, hmodels, hne, hfile⟩, hplace⟩ := h
  have hplanned : planned source s a.paths files = .ok (file.fullText, place) :=
    (planned_eq_ok_iff source).mpr ⟨models, file, hmodels, hne, hfile, rfl, hplace⟩
  simp only [CommandLine.programOutcome, runArguments_eq_ok_iff.mpr hwords, hs, settledOutcome,
    generatorOutcome, hplanned]

/-- A run opens its file, or it stops and leaves all files. -/
theorem reaches_or_stops (words : List String) (config : Option String) (files : FileTree String) :
    (∃ s file place, Reaches source words config files s file place) ∨
      ∃ stop, programOutcome source words config files = (.error stop, files) := by
  unfold programOutcome
  cases hwords : runArguments words with
  | error stop => exact .inr ⟨stop, rfl⟩
  | ok a =>
    cases hs : ((Settings.prepare config a).perform files).1 with
    | error stop => exact .inr ⟨stop, by simp only [hs, settledOutcome]⟩
    | ok s =>
      cases hplanned : planned source s a.paths files with
      | error stop =>
        exact .inr ⟨stop, by simp only [hs, settledOutcome, generatorOutcome, hplanned]⟩
      | ok plan =>
        obtain ⟨models, file, hmodels, hne, hfile, -, hplace⟩ :=
          (planned_eq_ok_iff source).mp hplanned
        exact .inl ⟨s, file, plan.2,
          ⟨a, models, runArguments_eq_ok_iff.mp hwords, hs, hmodels, hne, hfile⟩, hplace⟩

/-- There is one file that a run opens. -/
theorem Reaches.unique {words : List String} {config : Option String} {files : FileTree String}
    {s s' : Settings} {file file' : Declaration.SourceFile} {place place' : FileTree.Place}
    (h : Reaches source words config files s file place)
    (h' : Reaches source words config files s' file' place') :
    s = s' ∧ file = file' ∧ place = place' := by
  obtain ⟨⟨a, models, hwords, hs, hmodels, -, hfile⟩, hplace⟩ := h
  obtain ⟨⟨a', models', hwords', hs', hmodels', -, hfile'⟩, hplace'⟩ := h'
  -- each step takes what the steps before it gave
  obtain rfl : a = a' := by simpa using hwords.symm.trans hwords'
  obtain rfl : s = s' := Except.ok.inj (hs.symm.trans hs')
  obtain rfl : models = models' := Except.ok.inj (hmodels.symm.trans hmodels')
  obtain rfl : file = file' := Except.ok.inj (hfile.symm.trans hfile')
  exact ⟨rfl, rfl, Except.ok.inj (hplace.symm.trans hplace')⟩

/-! ## All or nothing -/

/-- A run that returns has reached its file. -/
theorem exists_reaches_of_ok {words : List String} {config : Option String}
    {files : FileTree String} {output : Output}
    (h : (programOutcome source words config files).1 = .ok output) :
    ∃ s file place, Reaches source words config files s file place ∧
      s.canEncode file.fullText ∧ output = ⟨s.outputFile, file.fullText⟩ := by
  obtain ⟨s, file, place, hreaches⟩ | ⟨stop, hstop⟩ :=
    reaches_or_stops source words config files
  · rw [hreaches.programOutcome source] at h
    by_cases hencode : s.canEncode file.fullText
    · rw [if_pos hencode] at h
      exact ⟨s, file, place, hreaches, hencode, (Except.ok.inj h).symm⟩
    · rw [if_neg hencode] at h
      exact nomatch h
  · rw [hstop] at h
    exact nomatch h

/-- A run that stops leaves all files as they are, unless it has opened one with a text and the new
text cannot be encoded. -/
theorem unchanged_iff_of_error {words : List String} {config : Option String}
    {files : FileTree String} {stop : Stop}
    (h : (programOutcome source words config files).1 = .error stop) :
    (∀ place, (programOutcome source words config files).2.at? place = files.at? place) ↔
      ¬ ∃ s file place, Reaches source words config files s file place ∧
        s.canEncode file.fullText = false ∧ files.at? place ≠ some "" := by
  constructor
  · -- the file that was opened has no text now, so it had none before
    rintro hall ⟨s, file, place, hreaches, hencode, htext⟩
    have hplace := hall place
    rw [hreaches.programOutcome source, hencode, if_neg (by simp), FileTree.at?_put,
      if_pos rfl] at hplace
    exact htext hplace.symm
  · intro hnone place
    obtain ⟨s, file, opened, hreaches⟩ | ⟨stop, hstop⟩ :=
      reaches_or_stops source words config files
    · have hwritten := hreaches.programOutcome source
      cases hencode : s.canEncode file.fullText with
      | true =>
        -- such a run returns
        rw [hwritten, hencode] at h
        exact nomatch h
      | false =>
        -- it is opened in vain, and there was no text to lose
        have hempty : files.at? opened = some "" :=
          Decidable.byContradiction fun htext =>
            hnone ⟨s, file, opened, hreaches, hencode, htext⟩
        rw [hwritten, hencode, if_neg (by simp), FileTree.at?_put]
        split
        case isTrue heq => rw [heq, hempty]
        case isFalse => rfl
    · rw [hstop]

/-- A run is all or nothing. It returns exactly when it opens a file and the text can be encoded:
then this file has the text of the generated declarations, which the run gives along with its path,
and all others are as before. When it stops, all files are as before, unless it has opened one that
had a text, and the text for it cannot be encoded. Being quiet makes no difference to any of
this. -/
theorem runProgram_all_or_nothing (words : List String) (config : Option String)
    (files : FileTree String) :
    ∃ r after messages,
      (runProgram source words config).perform files = (r, ⟨after, messages⟩) ∧
      ((∃ output, r = .ok output) ↔ ∃ s file place,
        Reaches source words config files s file place ∧ s.canEncode file.fullText) ∧
      (∀ output, r = .ok output → ∃ s file place,
        Reaches source words config files s file place ∧
        output = ⟨s.outputFile, file.fullText⟩ ∧
        ∀ other, after.at? other = if other = place then some file.fullText else files.at? other) ∧
      (∀ stop, r = .error stop → ((∀ place, after.at? place = files.at? place) ↔
        ¬ ∃ s file place, Reaches source words config files s file place ∧
          s.canEncode file.fullText = false ∧ files.at? place ≠ some "")) ∧
      ∀ words' config', WordsAgree words words' → Settings.ConfigsAgree config config' →
        ∃ messages', (runProgram source words' config').perform files =
          (r, ⟨after, messages'⟩) := by
  obtain ⟨messages, hrun⟩ := (runProgram_does source words config).perform files
  refine ⟨_, _, messages, hrun, ⟨?_, ?_⟩, ?_, ?_, ?_⟩
  · rintro ⟨output, houtput⟩
    obtain ⟨s, file, place, hreaches, hencode, -⟩ := exists_reaches_of_ok source houtput
    exact ⟨s, file, place, hreaches, hencode⟩
  · rintro ⟨s, file, place, hreaches, hencode⟩
    rw [hreaches.programOutcome source, if_pos hencode]
    exact ⟨_, rfl⟩
  · intro output houtput
    obtain ⟨s, file, place, hreaches, hencode, rfl⟩ := exists_reaches_of_ok source houtput
    refine ⟨s, file, place, hreaches, rfl, fun other => ?_⟩
    rw [hreaches.programOutcome source, if_pos hencode]
    exact FileTree.at?_put files place other file.fullText
  · exact fun stop hstop => unchanged_iff_of_error source hstop
  · intro words' config' hwords hconfig
    rw [programOutcome_of_agree source hwords hconfig]
    exact (runProgram_does source words' config').perform files

/-! ## A run that writes, and one that leaves its file empty -/

/-- The source of a note. -/
def noteSource : ModelSource := fun _ _ => .ok [("Note", noteSchema)]

theorem allWritable_note : AllWritable IsQuotable [("Note", noteSchema)] := by
  have hwritable : noteSchema.IsWritable IsQuotable "Note" := by
    refine ⟨hasNames_noteSchema, ?_⟩
    rintro value (⟨hcompiles, hrenders⟩ | ⟨htype, -⟩)
    · obtain ⟨rfl, rfl⟩ := hcompiles.eq_self rfl
      exact absurd hrenders not_renders_noteSchema
    · exact nomatch htype
  exact List.forall_mem_singleton.mpr ⟨by decide, hwritable⟩

theorem isReadable_noteSchema : noteSchema.IsReadable :=
  Schema.every_iff.mpr ⟨⟨false, rfl⟩, trivial⟩

/-- A directory without files. -/
def noFiles : FileTree String := ⟨"/", [], []⟩

/-- The place of the file that is written unless a setting says otherwise. -/
def defaultPlace : FileTree.Place := .inside ["src", "interfaces", "mongoose.gen.ts"]

theorem defaultOutput_eq :
    Settings.defaultOutput = ⟨"", ["src", "interfaces", "mongoose.gen.ts"]⟩ := by
  decide

theorem outputFile_default {s : Settings} (h : s.output = Settings.defaultOutput) :
    s.outputFile = Settings.defaultOutput := by
  have hsuffix : Settings.defaultOutput.suffix = ".ts" := by
    rw [defaultOutput_eq]
    decide
  rw [Settings.outputFile, h, if_pos hsuffix]

theorem openedPlace_default :
    Session.openedPlace noFiles Settings.defaultOutput true = .ok defaultPlace := by
  have hplace : noFiles.placeFor? ⟨"", ["src", "interfaces", "mongoose.gen.ts"]⟩ =
      some defaultPlace := by decide
  rw [defaultOutput_eq]
  simp [Session.openedPlace, Session.nameFault?, String.contains_char_eq, hplace, PathName.name]

/-- A command line of a path on which the known types are left out. -/
def unpatched : Arguments := ⟨["a"], none, none, [], some false, none, false⟩

theorem ofWords_unpatched : Request.ofWords ["a", "--no-patch"] = .ok (.run unpatched) := by
  have hrun : (Request.ofWords ["a", "--no-patch"]).toOption = some (.run unpatched) := by
    decide +kernel
  cases hwords : Request.ofWords ["a", "--no-patch"] with
  | error e =>
    rw [hwords] at hrun
    exact nomatch hrun
  | ok request =>
    rw [hwords] at hrun
    exact congrArg Except.ok (Option.some.inj hrun)

/-- The note is written to the default place with import lines that say nothing. -/
theorem exists_reaches_note (config : Option String) (s : Settings)
    (hs : ((Settings.prepare config unpatched).perform noFiles).1 = .ok s)
    (houtput : s.output = Settings.defaultOutput) (hplain : s.isPlainOutput = true)
    (haugment : s.augment = false) (hpatch : s.patch = false)
    (himports : ∀ line ∈ s.imports, Declaration.IsStatements line.toList []) :
    ∃ file parts, Reaches noteSource ["a", "--no-patch"] config noFiles s file defaultPlace ∧
      file.fullText = textOfImports s.imports parts := by
  obtain ⟨file, chunks, -, hfile, htext, -⟩ := exists_file_of_imports (List.cons_ne_nil _ _)
    allWritable_note (List.forall_mem_singleton.mpr isReadable_noteSchema) himports
  refine ⟨file, _, ⟨⟨unpatched, _, ofWords_unpatched, hs, rfl, List.cons_ne_nil _ _, ?_⟩, ?_⟩,
    htext⟩
  · rw [haugment, hpatch, generate, hfile]
    rfl
  · rw [outputFile_default houtput, hplain]
    exact openedPlace_default

/-- A run returns, and the file that was not there has the text of the note. -/
theorem runProgram_all_or_nothing_note :
    ∃ s file after messages,
      (runProgram noteSource ["a", "--no-patch"] none).perform noFiles =
        (.ok ⟨Settings.defaultOutput, file.fullText⟩, ⟨after, messages⟩) ∧
      Reaches noteSource ["a", "--no-patch"] none noFiles s file defaultPlace ∧
      after.at? defaultPlace = some file.fullText := by
  obtain ⟨file, parts, hreaches, -⟩ := exists_reaches_note none (Settings.start.applyArguments
    unpatched) rfl rfl rfl rfl rfl fun _ h => absurd h List.not_mem_nil
  obtain ⟨r, after, messages, hrun, hreturns, hwritten, -⟩ :=
    runProgram_all_or_nothing noteSource ["a", "--no-patch"] none noFiles
  obtain ⟨output, rfl⟩ := hreturns.mpr ⟨_, file, _, hreaches, rfl⟩
  obtain ⟨s, file', place, hreaches', rfl, hfiles⟩ := hwritten output rfl
  obtain ⟨rfl, rfl, rfl⟩ := hreaches.unique noteSource hreaches'
  refine ⟨_, file, after, messages, ?_, hreaches, by rw [hfiles, if_pos rfl]⟩
  rw [hrun, outputFile_default rfl]

/-- Imports with an unpaired surrogate in a comment. -/
def surrogateConfig : String :=
  "\x7b\"imports\": \x7b\"value\": [\"/*\\ud800*/\"]\x7d\x7d"

/-- The settings that they make. -/
def surrogateSettings : Settings :=
  ⟨Settings.defaultOutput, false, ["/*\uFFFD*/"], false, false, true, false⟩

theorem read_surrogateConfig : Json.read surrogateConfig =
    .ok (.object [("imports", .object [("value", .array [.unpaired "/*\uFFFD*/"])])]) := by
  have hchars : surrogateConfig.toList =
      ['\x7b', '"', 'i', 'm', 'p', 'o', 'r', 't', 's', '"', ':', ' ', '\x7b', '"', 'v', 'a', 'l',
        'u', 'e', '"', ':', ' ', '[', '"', '/', '*', '\\', 'u', 'd', '8', '0', '0', '*', '/', '"',
        ']', '\x7d', '\x7d'] := by
    decide
  rw [Json.read, hchars]
  rfl

/-- A run stops as the text for its file cannot be encoded, and yet there is a file where there was
none. -/
theorem runProgram_leaves_empty_file :
    ∃ after messages,
      (runProgram noteSource ["a", "--no-patch"] (some surrogateConfig)).perform noFiles =
        (.error (.failure (.unencodableText Settings.defaultOutput)), ⟨after, messages⟩) ∧
      after.at? defaultPlace = some "" ∧ noFiles.at? defaultPlace = none := by
  have hprepare : ((Settings.prepare (some surrogateConfig) unpatched).perform noFiles).1 =
      .ok surrogateSettings := by
    rw [Settings.prepare, Settings.applyConfig_of_read .start read_surrogateConfig]
    rfl
  have hcomment : Declaration.IsStatements "/*\uFFFD*/".toList [] :=
    Declaration.isStatements_silent (Declaration.spells_block
      (Declaration.BlockRest.append (x := ['\uFFFD']) (by decide) .close))
  obtain ⟨file, parts, hreaches, htext⟩ := exists_reaches_note _ surrogateSettings hprepare rfl rfl
    rfl rfl (List.forall_mem_singleton.mpr hcomment)
  have hsurrogate : '\uFFFD' ∈ file.fullText.toList := by
    rw [htext]
    exact mem_textOfImports (List.mem_singleton_self _) (by decide) parts
  have hencode : surrogateSettings.canEncode file.fullText = false := by
    simp [Settings.canEncode, String.contains_char_eq, hsurrogate, surrogateSettings]
  obtain ⟨messages, hrun⟩ :=
    (runProgram_does noteSource ["a", "--no-patch"] (some surrogateConfig)).perform noFiles
  rw [hreaches.programOutcome noteSource, hencode, if_neg (by simp), outputFile_default rfl] at hrun
  exact ⟨_, messages, hrun, by rw [FileTree.at?_put, if_pos rfl], rfl⟩

end SchemaTypings.CommandLine
