import SchemaTypings.Proofs.CommandLine.Outcomes

/-!
# Quiet runs

The setting to be quiet decides what is printed and nothing else (`programOutcome_of_agree`). It may
be given by the words of the command line (`WordsAgree`) and by entries of the configuration
(`Settings.ConfigsAgree`). Every other entry changes settings that are not quiet as it changes
others (`Settings.applyEntry_loud`), so that the entries about being quiet can be left out
(`Settings.applyEntries_loud`).
-/

namespace SchemaTypings.CommandLine

open Session (Ends)

namespace Settings

/-- The settings of a run that is not quiet. -/
def loud (s : Settings) : Settings := { s with quiet := false }

/-- The effect of an entry on settings that are not quiet. -/
def EntryEffect.loud : EntryEffect → EntryEffect
  | .change s => .change s.loud
  | .unknown => .unknown
  | .reserved => .reserved

/-- Whether an entry of the configuration says if the run is quiet. -/
def setsQuiet (e : String × Json.Value) : Bool :=
  e.1 = "quiet" && e.2.member? "value" matches some (.bool _)

/-- The entries of a configuration that say anything else. -/
def besidesQuiet (entries : List (String × Json.Value)) : List (String × Json.Value) :=
  entries.filter (!setsQuiet ·)

/-- Any entry but one that says if the run is quiet has the same effect on settings that are not
quiet. -/
theorem applyEntry_loud (s : Settings) {key : String} {v : Json.Value}
    (h : ¬ (key = "quiet" ∧ ∃ b, v = .bool b)) :
    applyEntry s.loud key v = (applyEntry s key v).map EntryEffect.loud := by
  by_cases hkey : key ∈ settingKeys
  · simp only [settingKeys, List.mem_cons, List.not_mem_nil, or_false] at hkey
    obtain rfl | rfl | rfl | rfl | rfl := hkey
    · cases htext : v.text? with
      | none =>
        simp only [applyEntry, htext]
        rfl
      | some t =>
        simp only [applyEntry, htext]
        split <;> rfl
    · cases v <;> rfl
    · cases v with
      | array items =>
        simp only [applyEntry]
        cases textItems? items <;> rfl
      | _ => rfl
    · cases v <;> rfl
    · cases v with
      | bool b => exact absurd ⟨rfl, b, rfl⟩ h
      | _ => rfl
  · rw [(applyEntry_other _ hkey v).2, (applyEntry_other s hkey v).2]
    split <;> rfl

/-- What all entries make of some settings, those that say nothing about being quiet make of the
settings that are not quiet. -/
theorem applyEntries_loud (s : Settings) (entries : List (String × Json.Value)) :
    ∃ r messages told, Ends (applyEntries s entries) r messages ∧
      Ends (applyEntries s.loud (besidesQuiet entries)) (r.map loud) told := by
  induction entries generalizing s with
  | nil => exact ⟨_, _, _, Ends.return s, Ends.return s.loud⟩
  | cons e rest ih =>
    obtain ⟨key, entry⟩ := e
    cases hvalue : entry.member? "value" with
    | none =>
      have hkept : setsQuiet (key, entry) = false := by simp [setsQuiet, hvalue]
      rw [besidesQuiet, List.filter_cons_of_pos (by simp [hkept]), applyEntries, applyEntries,
        hvalue]
      exact ⟨_, _, _, Ends.abort _ 22, Ends.abort _ 22⟩
    | some v =>
      by_cases hquiet : key = "quiet" ∧ ∃ b, v = .bool b
      · obtain ⟨rfl, b, rfl⟩ := hquiet
        have hdropped : setsQuiet ("quiet", entry) = true := by simp [setsQuiet, hvalue]
        rw [besidesQuiet, List.filter_cons_of_neg (by simp [hdropped]), applyEntries, hvalue]
        -- what it sets is what is forgotten
        exact ih { s with quiet := b }
      · have hkept : setsQuiet (key, entry) = false := by
          cases v <;> simp_all [setsQuiet]
        have heffect := applyEntry_loud s hquiet
        rw [besidesQuiet, List.filter_cons_of_pos (by simp [hkept]), applyEntries, applyEntries,
          hvalue]
        dsimp only
        rw [heffect]
        cases applyEntry s key v with
        | error e => exact ⟨_, _, _, Ends.abort _ 22, Ends.abort _ 22⟩
        | ok effect =>
          cases effect with
          | change changed => exact ih changed
          | unknown =>
            -- the line about it is always printed on the one side, and may be on the other
            obtain ⟨r, messages, told, hends, hloud⟩ := ih s
            have hsaid := hloud.say (.unknownSetting key)
            cases hs : s.quiet with
            | true => exact ⟨r, messages, _, hends, hsaid⟩
            | false => exact ⟨r, _, _, hends.say (.unknownSetting key), hsaid⟩
          | reserved => exact ⟨_, _, _, Ends.throw _, Ends.throw _⟩

/-- The entries of a configuration; there are none when it is absent or empty. -/
def configEntries? (config : Option String) : Option (List (String × Json.Value)) :=
  match config.filter (!·.isEmpty) with
  | none => some []
  | some text =>
    match Json.read text with
    | .ok (.object entries) => some entries
    | _ => none

theorem applyConfig_of_entries (s : Settings) {config : Option String}
    {entries : List (String × Json.Value)} (h : configEntries? config = some entries) :
    s.applyConfig config = s.applyEntries entries := by
  unfold configEntries? at h
  unfold applyConfig
  cases hconfig : config.filter (!·.isEmpty) with
  | none =>
    rw [hconfig] at h
    obtain rfl := Option.some.inj h
    rfl
  | some text =>
    rw [hconfig] at h
    dsimp only at h ⊢
    split at h
    case h_1 hread =>
      obtain rfl := Option.some.inj h
      rw [hread]
    case h_2 => exact nomatch h

/-- Two configurations are the same, or differ in entries about being quiet alone. -/
def ConfigsAgree (config config' : Option String) : Prop :=
  config = config' ∨ ∃ entries entries', configEntries? config = some entries ∧
    configEntries? config' = some entries' ∧ besidesQuiet entries = besidesQuiet entries'

/-- What the configuration comes to, but for being quiet. -/
theorem exists_ends_of_configsAgree {config config' : Option String}
    (h : ConfigsAgree config config') :
    ∃ r r' messages messages', Ends (start.applyConfig config) r messages ∧
      Ends (start.applyConfig config') r' messages' ∧ r.map loud = r'.map loud := by
  obtain rfl | ⟨entries, entries', hentries, hentries', hagree⟩ := h
  · obtain ⟨r, messages, hends, -⟩ := exists_ends_applyConfig start config
    exact ⟨r, r, messages, messages, hends, hends, rfl⟩
  · obtain ⟨r, messages, told, hends, hloud⟩ := applyEntries_loud start entries
    obtain ⟨r', messages', told', hends', hloud'⟩ := applyEntries_loud start entries'
    rw [applyConfig_of_entries start hentries, applyConfig_of_entries start hentries']
    refine ⟨r, r', messages, messages', hends, hends', ?_⟩
    rw [← hagree] at hloud'
    exact congrArg Prod.fst ((hloud.perform ⟨"", [], []⟩).symm.trans (hloud'.perform ⟨"", [], []⟩))

/-- The settings of a run, but for being quiet, when the words say so as well. -/
theorem map_loud_prepare {config config' : Option String}
    (h : ConfigsAgree config config') (a : Arguments) (quiet : Option Bool)
    (files : FileTree String) :
    (((prepare config a).perform files).1).map loud =
      (((prepare config' { a with quiet }).perform files).1).map loud := by
  obtain ⟨r, r', messages, messages', hends, hends', heq⟩ := exists_ends_of_configsAgree h
  rw [prepare, (hends.map _).perform, prepare, (hends'.map _).perform]
  have hloud : ∀ (r : Except Stop Settings) (a : Arguments),
      (r.map (applyArguments · a)).map loud = (r.map loud).map fun s => (s.applyArguments a).loud := by
    rintro (_ | s) a <;> rfl
  rw [hloud, hloud, heq]
  rfl

end Settings

variable (source : ModelSource)

/-- Two command lines are the same, or differ in being quiet alone. -/
def WordsAgree (words words' : List String) : Prop :=
  words = words' ∨ ∃ a quiet, Request.ofWords words = .ok (.run a) ∧
    Request.ofWords words' = .ok (.run { a with quiet })

/-- Being quiet makes no difference to the files. -/
theorem settledOutcome_of_map_loud {r r' : Except Stop Settings}
    (h : r.map Settings.loud = r'.map Settings.loud) :
    settledOutcome source r = settledOutcome source r' := by
  cases r with
  | error stop =>
    cases r' with
    | error stop' =>
      obtain rfl := Except.error.inj h
      rfl
    | ok s' => exact nomatch h
  | ok s =>
    cases r' with
    | error stop' => exact nomatch h
    | ok s' =>
      have hloud : s.loud = s'.loud := Except.ok.inj h
      -- all settings but this one are read
      calc
        settledOutcome source (.ok s) = settledOutcome source (.ok s.loud) := rfl
        _ = settledOutcome source (.ok s'.loud) := by rw [hloud]

theorem programOutcome_of_agree {words words' : List String} {config config' : Option String}
    (hwords : WordsAgree words words') (hconfig : Settings.ConfigsAgree config config') :
    programOutcome source words config = programOutcome source words' config' := by
  have hsettled (a : Arguments) (quiet : Option Bool) (files : FileTree String) :=
    congrFun (congrFun (settledOutcome_of_map_loud source
      (Settings.map_loud_prepare hconfig a quiet files)) a.paths) files
  funext files
  obtain rfl | ⟨a, quiet, ha, ha'⟩ := hwords
  · unfold programOutcome
    cases runArguments words with
    | error stop => rfl
    | ok a => exact hsettled a a.quiet files
  · unfold programOutcome runArguments
    rw [ha, ha']
    exact hsettled a quiet files

end SchemaTypings.CommandLine
