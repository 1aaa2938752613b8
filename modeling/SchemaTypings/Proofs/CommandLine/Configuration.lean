import SchemaTypings.CommandLine.Settings

/-!
# Configurations

The configuration in the environment is taken entry by entry, and each entry is refused, changes the
settings or is skipped (`Settings.ends_cons`). So every configuration ends with settings or is
refused with one message, unless an entry names the configuration itself, and an entry that names no
setting makes no difference but for a line about it (`Settings.prepare_handled`).
-/

namespace SchemaTypings.CommandLine

namespace Session

variable {α β : Type}

/-- A session ends in the same way on every desk: it prints some messages and leaves the files. -/
def Ends (s : Session α) (r : Except Stop α) (messages : List Message) : Prop :=
  ∀ desk : Desk, s.run.run desk = (r, { desk with messages := desk.messages ++ messages })

theorem Ends.return (a : α) : Ends (return a) (.ok a) [] := by
  intro desk
  rw [List.append_nil]
  rfl

theorem Ends.throw (e : Stop) : Ends (throw e : Session α) (.error e) [] := by
  intro desk
  rw [List.append_nil]
  rfl

/-- A message in front of what a session prints. -/
theorem Ends.say {s : Session α} {r : Except Stop α} {messages : List Message}
    (h : Ends s r messages) (m : Message) :
    Ends (do Session.say m; s) r (m :: messages) := by
  intro desk
  have hs := h { desk with messages := desk.messages ++ [m] }
  rw [List.append_assoc, List.singleton_append] at hs
  exact hs

theorem Ends.abort (text : String) (code : Nat) :
    Ends (Session.abort text code : Session α) (.error (.exit code)) [.error text] :=
  (Ends.throw (.exit code)).say (.error text)

theorem Ends.map {s : Session α} {r : Except Stop α} {messages : List Message}
    (h : Ends s r messages) (f : α → β) : Ends (do return f (← s)) (r.map f) messages := by
  intro desk
  rw [ExceptT.run_bind, StateT.run_bind, h desk]
  cases r <;> rfl

/-- What a session gives on some files. -/
theorem Ends.perform {s : Session α} {r : Except Stop α} {messages : List Message}
    (h : Ends s r messages) (files : FileTree String) :
    s.perform files = (r, ⟨files, messages⟩) :=
  h ⟨files, []⟩

end Session

namespace Settings

/-! ## Entries -/

/-- The keys of the settings. -/
def settingKeys : List String :=
  ["output", "augment", "imports", "patch", "quiet"]

/-- The values that a key takes: a text that is not empty for the output, texts for the imports, a
boolean for a switch, and anything for a key that is no setting. -/
def Takes (key : String) (v : Json.Value) : Prop :=
  (key = "output" → ∃ t, v.text? = some t ∧ t ≠ "") ∧
    (key = "imports" → ∃ items, v = .array items ∧ ∀ i ∈ items, i.text?.isSome) ∧
    (key ∈ ["augment", "patch", "quiet"] → ∃ b, v = .bool b)

/-- An entry has a value that its key takes. -/
def IsAccepted (e : String × Json.Value) : Prop :=
  ∃ v, e.2.member? "value" = some v ∧ Takes e.1 v

/-- An entry names the configuration itself, and it and all in front of it are accepted. -/
def NamesConfig (entries : List (String × Json.Value)) : Prop :=
  ∃ before entry after, entries = before ++ ("config", entry) :: after ∧
    ∀ e ∈ before ++ [("config", entry)], IsAccepted e

/-- The configuration is an object in which an entry names the configuration. -/
def ConfiguresItself (config : Option String) : Prop :=
  ∃ text entries, config = some text ∧ Json.read text = .ok (.object entries) ∧
    NamesConfig entries

/-- A line about an entry whose key is no setting. -/
def IsSkipped (m : Message) : Prop :=
  ∃ key ∉ settingKeys, m = .unknownSetting key

/-- How a configuration is handled: it ends with settings, or is refused after one error. In front
there are lines about skipped entries alone. -/
inductive IsHandled : Except Stop Settings → List Message → Prop
  | settled (s : Settings) {skipped : List Message} :
      (∀ m ∈ skipped, IsSkipped m) → IsHandled (.ok s) skipped
  | refused (text : String) {skipped : List Message} :
      (∀ m ∈ skipped, IsSkipped m) → IsHandled (.error (.exit 22)) (skipped ++ [.error text])

theorem isHandled_refused (text : String) : IsHandled (.error (.exit 22)) [.error text] :=
  @IsHandled.refused text [] (by simp)

/-- A line about a skipped entry in front makes no difference. -/
theorem IsHandled.skip {r : Except Stop Settings} {messages : List Message}
    (h : IsHandled r messages) {m : Message} (hm : IsSkipped m) : IsHandled r (m :: messages) := by
  cases h with
  | settled s hskipped => exact .settled s (List.forall_mem_cons.mpr ⟨hm, hskipped⟩)
  | refused text hskipped =>
    exact .refused text (List.forall_mem_cons.mpr ⟨hm, hskipped⟩)

theorem namesConfig_nil : ¬ NamesConfig [] := by
  rintro ⟨before, entry, after, h, -⟩
  simp at h

theorem namesConfig_cons (e : String × Json.Value) (rest : List (String × Json.Value)) :
    NamesConfig (e :: rest) ↔ IsAccepted e ∧ (e.1 = "config" ∨ NamesConfig rest) := by
  constructor
  · rintro ⟨before, entry, after, heq, haccepted⟩
    cases before with
    | nil =>
      obtain ⟨rfl, rfl⟩ := List.cons.inj heq
      exact ⟨haccepted _ List.mem_cons_self, .inl rfl⟩
    | cons first before =>
      obtain ⟨rfl, rfl⟩ := List.cons.inj heq
      obtain ⟨hfirst, hothers⟩ := List.forall_mem_cons.mp haccepted
      exact ⟨hfirst, .inr ⟨before, entry, after, rfl, hothers⟩⟩
  · rintro ⟨haccepted, hkey | ⟨before, entry, after, rfl, hothers⟩⟩
    · obtain ⟨key, entry⟩ := e
      obtain rfl : key = "config" := hkey
      exact ⟨[], entry, rest, rfl, by simpa using haccepted⟩
    · exact ⟨e :: before, entry, after, rfl, List.forall_mem_cons.mpr ⟨haccepted, hothers⟩⟩

theorem textItems?_isSome_iff (items : List Json.Value) :
    (textItems? items).isSome ↔ ∀ i ∈ items, i.text?.isSome := by
  induction items with
  | nil => simp [textItems?]
  | cons v rest ih =>
    rw [textItems?, List.forall_mem_cons, ← ih]
    cases v.text? <;> simp

/-- A setting takes a value and changes, or refuses it. -/
theorem applyEntry_setting (s : Settings) {key : String} (hkey : key ∈ settingKeys)
    (v : Json.Value) :
    Takes key v ∧ (∃ changed, applyEntry s key v = .ok (.change changed)) ∨
      ¬ Takes key v ∧ ∃ e, applyEntry s key v = .error e := by
  simp only [settingKeys, List.mem_cons, List.not_mem_nil, or_false] at hkey
  obtain rfl | rfl | rfl | rfl | rfl := hkey
  · -- the output
    cases htext : v.text? with
    | some t => by_cases ht : t = "" <;> simp [applyEntry, Takes, htext, ht]
    | none => simp [applyEntry, Takes, htext]
  · cases v <;> simp [applyEntry, switchValue, Takes, Except.map]
  · -- the imports
    cases v with
    | array items =>
      have htexts := textItems?_isSome_iff items
      cases hitems : textItems? items with
      | some lines =>
        rw [hitems] at htexts
        exact .inl ⟨⟨by simp, fun _ => ⟨items, rfl, htexts.mp rfl⟩, by simp⟩, _, by
          simp only [applyEntry, hitems]; rfl⟩
      | none =>
        rw [hitems] at htexts
        have hnone : ¬ ∀ i ∈ items, i.text?.isSome := fun h => by simpa using htexts.mpr h
        refine .inr ⟨?_, .badImports, by simp [applyEntry, hitems]⟩
        rintro ⟨-, h, -⟩
        obtain ⟨_, heq, hall⟩ := h rfl
        exact hnone (Json.Value.array.inj heq ▸ hall)
    | _ => simp [applyEntry, Takes]
  · cases v <;> simp [applyEntry, switchValue, Takes, Except.map]
  · cases v <;> simp [applyEntry, switchValue, Takes, Except.map]

/-- A key that is no setting takes any value; only one such key has an effect. -/
theorem applyEntry_other (s : Settings) {key : String} (hkey : key ∉ settingKeys)
    (v : Json.Value) :
    Takes key v ∧ applyEntry s key v = .ok (if key = "config" then .reserved else .unknown) := by
  simp only [settingKeys, List.mem_cons, List.not_mem_nil, or_false, not_or] at hkey
  obtain ⟨houtput, haugment, himports, hpatch, hquiet⟩ := hkey
  refine ⟨by simp [Takes, *], ?_⟩
  unfold applyEntry
  split
  case h_6 => rfl
  case h_7 hconfig => rw [if_neg hconfig]
  all_goals contradiction

/-! ## One entry -/

open Session (Ends)

/-- An entry that is not accepted is refused. -/
theorem ends_of_not_isAccepted (s : Settings) {e : String × Json.Value} (h : ¬ IsAccepted e) :
    ∃ text, ∀ rest, Ends (applyEntries s (e :: rest)) (.error (.exit 22)) [.error text] := by
  obtain ⟨key, entry⟩ := e
  cases hvalue : entry.member? "value" with
  | none =>
    refine ⟨(ConfigError.noValue key entry).message, fun rest => ?_⟩
    rw [applyEntries, hvalue]
    exact Ends.abort _ 22
  | some v =>
    have hnot : ¬ Takes key v := fun htakes => h ⟨v, hvalue, htakes⟩
    obtain ⟨error, herror⟩ : ∃ error, applyEntry s key v = .error error := by
      by_cases hkey : key ∈ settingKeys
      · exact ((applyEntry_setting s hkey v).resolve_left fun hv => hnot hv.1).2
      · exact absurd (applyEntry_other s hkey v).1 hnot
    refine ⟨error.message, fun rest => ?_⟩
    rw [applyEntries, hvalue]
    dsimp only
    rw [herror]
    exact Ends.abort _ 22

/-- An accepted entry of a setting changes the settings, and nothing is printed. -/
theorem exists_applyEntries_setting (s : Settings) {e : String × Json.Value} (h : IsAccepted e)
    (hkey : e.1 ∈ settingKeys) :
    ∃ changed, ∀ rest, applyEntries s (e :: rest) = applyEntries changed rest := by
  obtain ⟨key, entry⟩ := e
  obtain ⟨v, hvalue, htakes⟩ := h
  obtain ⟨changed, hchanged⟩ :=
    ((applyEntry_setting s hkey v).resolve_right fun hv => hv.1 htakes).2
  refine ⟨changed, fun rest => ?_⟩
  rw [applyEntries, hvalue]
  dsimp only
  rw [hchanged]

/-- An entry that names the configuration fails. -/
theorem ends_config (s : Settings) {e : String × Json.Value} (h : IsAccepted e)
    (hkey : e.1 = "config") (rest : List (String × Json.Value)) :
    Ends (applyEntries s (e :: rest)) (.error (.failure .reservedSetting)) [] := by
  obtain ⟨key, entry⟩ := e
  obtain rfl : key = "config" := hkey
  obtain ⟨v, hvalue, -⟩ := h
  rw [applyEntries, hvalue]
  exact Ends.throw _

/-- An accepted entry of any other key is skipped, with a line about it or without one. -/
theorem ends_skipped (s : Settings) {e : String × Json.Value} (h : IsAccepted e)
    (hkey : e.1 ∉ settingKeys) (hconfig : e.1 ≠ "config") :
    ∃ line ∈ [[], [Message.unknownSetting e.1]], ∀ rest r messages,
      Ends (applyEntries s rest) r messages →
        Ends (applyEntries s (e :: rest)) r (line ++ messages) := by
  obtain ⟨key, entry⟩ := e
  obtain ⟨v, hvalue, -⟩ := h
  have heffect := (applyEntry_other s hkey v).2
  rw [if_neg hconfig] at heffect
  cases hquiet : s.quiet with
  | true =>
    refine ⟨[], by simp, fun rest r messages hrest => ?_⟩
    rw [applyEntries, hvalue]
    dsimp only
    rw [heffect]
    simpa [hquiet] using hrest
  | false =>
    refine ⟨[.unknownSetting key], by simp, fun rest r messages hrest => ?_⟩
    rw [applyEntries, hvalue]
    dsimp only
    rw [heffect]
    simpa [hquiet] using hrest.say (.unknownSetting key)

/-- A key that is no setting is accepted with any value. -/
theorem isAccepted_of_value {key : String} (hkey : key ∉ settingKeys) {entry v : Json.Value}
    (hvalue : entry.member? "value" = some v) : IsAccepted (key, entry) :=
  ⟨v, hvalue, (applyEntry_other start hkey v).1⟩

/-- After an entry it is over, or the other entries decide how it ends, in whatever company. -/
theorem ends_cons (s : Settings) (e : String × Json.Value) :
    (∃ r messages, ∀ rest, Ends (applyEntries s (e :: rest)) r messages) ∨
      ∃ changed line, ∀ rest r messages, Ends (applyEntries changed rest) r messages →
        Ends (applyEntries s (e :: rest)) r (line ++ messages) := by
  by_cases haccepted : IsAccepted e
  · by_cases hkey : e.1 ∈ settingKeys
    · obtain ⟨changed, hchanged⟩ := exists_applyEntries_setting s haccepted hkey
      exact .inr ⟨changed, [], fun rest r messages h => (hchanged rest).symm ▸ h⟩
    · by_cases hconfig : e.1 = "config"
      · exact .inl ⟨_, _, ends_config s haccepted hconfig⟩
      · obtain ⟨line, -, hskip⟩ := ends_skipped s haccepted hkey hconfig
        exact .inr ⟨s, line, hskip⟩
  · obtain ⟨text, hrefused⟩ := ends_of_not_isAccepted s haccepted
    exact .inl ⟨_, _, hrefused⟩

/-! ## All entries -/

/-- The entries end with settings, or the first that is not accepted is refused, unless one of them
names the configuration before. -/
theorem exists_ends_applyEntries (s : Settings) (entries : List (String × Json.Value)) :
    ∃ r messages, Ends (applyEntries s entries) r messages ∧
      (¬ NamesConfig entries ∧ IsHandled r messages ∨
        NamesConfig entries ∧ r = .error (.failure .reservedSetting)) := by
  induction entries generalizing s with
  | nil => exact ⟨_, _, Ends.return s, .inl ⟨namesConfig_nil, .settled s (by simp)⟩⟩
  | cons e rest ih =>
    by_cases haccepted : IsAccepted e
    · by_cases hkey : e.1 ∈ settingKeys
      · -- a setting changes what the other entries are applied to
        have hconfig : e.1 ≠ "config" := fun h => absurd (h ▸ hkey) (by decide)
        obtain ⟨changed, hchanged⟩ := exists_applyEntries_setting s haccepted hkey
        simpa [namesConfig_cons, haccepted, hconfig, hchanged] using ih changed
      · by_cases hconfig : e.1 = "config"
        · -- what stands behind is not looked at
          exact ⟨_, _, ends_config s haccepted hconfig rest,
            .inr ⟨(namesConfig_cons e rest).mpr ⟨haccepted, .inl hconfig⟩, rfl⟩⟩
        · obtain ⟨line, hline, hskip⟩ := ends_skipped s haccepted hkey hconfig
          obtain ⟨r, messages, hends, hhow⟩ := ih s
          refine ⟨r, _, hskip rest r messages hends, ?_⟩
          simp only [namesConfig_cons, haccepted, hconfig, true_and, false_or]
          refine hhow.imp_left fun ⟨hnot, hhandled⟩ => ⟨hnot, ?_⟩
          simp only [List.mem_cons, List.not_mem_nil, or_false] at hline
          obtain rfl | rfl := hline
          · exact hhandled
          · exact hhandled.skip ⟨e.1, hkey, rfl⟩
    · obtain ⟨text, hrefused⟩ := ends_of_not_isAccepted s haccepted
      exact ⟨_, _, hrefused rest, .inl ⟨fun h => haccepted ((namesConfig_cons e rest).mp h).1,
        isHandled_refused text⟩⟩

/-- An entry that is skipped makes no difference, wherever it stands, but for a line about it. -/
theorem ends_applyEntries_skip (s : Settings) {e : String × Json.Value} (haccepted : IsAccepted e)
    (hkey : e.1 ∉ settingKeys) (hconfig : e.1 ≠ "config")
    (before after : List (String × Json.Value)) :
    ∃ r first last, Ends (applyEntries s (before ++ after)) r (first ++ last) ∧
      ∃ line ∈ [[], [Message.unknownSetting e.1]],
        Ends (applyEntries s (before ++ e :: after)) r (first ++ line ++ last) := by
  induction before generalizing s with
  | nil =>
    obtain ⟨r, messages, hends, -⟩ := exists_ends_applyEntries s after
    obtain ⟨line, hline, hskip⟩ := ends_skipped s haccepted hkey hconfig
    exact ⟨r, [], messages, hends, line, hline, hskip after r messages hends⟩
  | cons f before ih =>
    obtain ⟨r, messages, hover⟩ | ⟨changed, told, hmore⟩ := ends_cons s f
    · -- the entries behind are not looked at
      exact ⟨r, messages, [], by simpa using hover (before ++ after), [], by simp,
        by simpa using hover (before ++ e :: after)⟩
    · -- the line about the entry comes behind what the entries in front of it tell
      obtain ⟨r, first, last, hends, line, hline, hwith⟩ := ih changed
      refine ⟨r, told ++ first, last, ?_, line, hline, ?_⟩
      · simpa using hmore _ _ _ hends
      · simpa using hmore _ _ _ hwith

/-! ## Configurations -/

/-- A configuration that is not empty is read. -/
theorem applyConfig_of_ne (s : Settings) {text : String} (h : text ≠ "") :
    s.applyConfig (some text) =
      match Json.read text with
      | .error e => refuse (.notJson e)
      | .ok (.object entries) => s.applyEntries entries
      | .ok _ => refuse .notObject := by
  have hfull : text.isEmpty = false := by simpa [String.isEmpty_iff] using h
  cases hread : Json.read text with
  | error e => simp only [applyConfig, Option.filter, hfull, Bool.not_false, if_true, hread]
  | ok v =>
    cases v <;> simp only [applyConfig, Option.filter, hfull, Bool.not_false, if_true, hread]

/-- An object is taken entry by entry. -/
theorem applyConfig_of_read (s : Settings) {text : String} {entries : List (String × Json.Value)}
    (h : Json.read text = .ok (.object entries)) :
    s.applyConfig (some text) = s.applyEntries entries := by
  have hne : text ≠ "" := by
    rintro rfl
    cases h
  rw [applyConfig_of_ne s hne, h]

theorem configuresItself_iff {text : String} {entries : List (String × Json.Value)}
    (h : Json.read text = .ok (.object entries)) :
    ConfiguresItself (some text) ↔ NamesConfig entries := by
  constructor
  · rintro ⟨_, others, heq, hothers, hnames⟩
    obtain rfl := Option.some.inj heq
    obtain rfl := Json.Value.object.inj (Except.ok.inj (h.symm.trans hothers))
    exact hnames
  · exact fun hnames => ⟨text, entries, rfl, h, hnames⟩

/-- What is no object names no configuration. -/
theorem not_configuresItself {text : String}
    (h : ∀ entries, Json.read text ≠ .ok (.object entries)) : ¬ ConfiguresItself (some text) := by
  rintro ⟨_, entries, heq, hread, -⟩
  obtain rfl := Option.some.inj heq
  exact h entries hread

/-- Every configuration is handled, unless it names itself. -/
theorem exists_ends_applyConfig (s : Settings) (config : Option String) :
    ∃ r messages, Ends (s.applyConfig config) r messages ∧
      (¬ ConfiguresItself config ∧ IsHandled r messages ∨
        ConfiguresItself config ∧ r = .error (.failure .reservedSetting)) := by
  have hkept : IsHandled (.ok s) [] := .settled s (by simp)
  cases config with
  | none => exact ⟨_, _, Ends.return s, .inl ⟨by simp [ConfiguresItself], hkept⟩⟩
  | some text =>
    by_cases hempty : text = ""
    · subst hempty
      exact ⟨_, _, Ends.return s, .inl ⟨not_configuresItself (fun _ => nofun), hkept⟩⟩
    · rw [applyConfig_of_ne s hempty]
      cases hread : Json.read text with
      | error e =>
        exact ⟨_, _, Ends.abort _ 22,
          .inl ⟨not_configuresItself (by simp [hread]), isHandled_refused _⟩⟩
      | ok v =>
        cases v with
        | object entries =>
          rw [configuresItself_iff hread]
          exact exists_ends_applyEntries s entries
        | _ =>
          exact ⟨_, _, Ends.abort _ 22,
            .inl ⟨not_configuresItself (by simp [hread]), isHandled_refused _⟩⟩

/-- The command line has its word when the configuration is handled. -/
theorem IsHandled.map {r : Except Stop Settings} {messages : List Message}
    (h : IsHandled r messages) (f : Settings → Settings) : IsHandled (r.map f) messages := by
  cases h with
  | settled s hskipped => exact .settled (f s) hskipped
  | refused text hskipped => exact .refused text hskipped

/-- A configuration that fails is not handled. -/
theorem not_isHandled_failure (f : Failure) (messages : List Message) :
    ¬ IsHandled (.error (.failure f)) messages := by
  rintro ⟨⟩

/-- Whatever the configuration and the command line are, no file changes, and there are settings or
one error and the exit code 22, behind lines about skipped entries; but when all entries up to one
that names the configuration are accepted, there is a failure. An entry that names no setting makes
no difference but for a line about it. -/
theorem prepare_handled (config : Option String) (a : Arguments) (files : FileTree String) :
    (∃ r messages, (prepare config a).perform files = (r, ⟨files, messages⟩) ∧
      (IsHandled r messages ↔ ¬ ConfiguresItself config) ∧
      (r = .error (.failure .reservedSetting) ↔ ConfiguresItself config)) ∧
    ∀ text shorter before key entry v after, key ∉ settingKeys → key ≠ "config" →
      entry.member? "value" = some v →
      Json.read text = .ok (.object (before ++ (key, entry) :: after)) →
      Json.read shorter = .ok (.object (before ++ after)) →
      ∃ r first last, (prepare (some shorter) a).perform files = (r, ⟨files, first ++ last⟩) ∧
        ∃ line ∈ [[], [Message.unknownSetting key]],
          (prepare (some text) a).perform files = (r, ⟨files, first ++ line ++ last⟩) := by
  constructor
  · obtain ⟨r, messages, hends, ⟨hnot, hhandled⟩ | ⟨hconfigures, rfl⟩⟩ :=
      exists_ends_applyConfig start config
    · refine ⟨_, messages, (hends.map _).perform files, ?_, ?_⟩
      · simp [hnot, hhandled.map]
      · simp only [hnot, iff_false]
        intro hr
        exact not_isHandled_failure _ _ (hr ▸ hhandled.map (·.applyArguments a))
    · refine ⟨_, messages, (hends.map _).perform files, ?_, ?_⟩
      · exact iff_of_false (not_isHandled_failure _ messages) (not_not_intro hconfigures)
      · exact iff_of_true rfl hconfigures
  · intro text shorter before key entry v after hkey hconfig hvalue htext hshorter
    have haccepted := isAccepted_of_value hkey hvalue
    obtain ⟨r, first, last, hends, line, hline, hwith⟩ :=
      ends_applyEntries_skip start haccepted hkey hconfig before after
    rw [← applyConfig_of_read start hshorter] at hends
    rw [← applyConfig_of_read start htext] at hwith
    exact ⟨_, first, last, (hends.map _).perform files, line, hline, (hwith.map _).perform files⟩

/-- A command line of one path. -/
def oneTarget : Arguments :=
  { paths := ["a.py"], output := none, augment := none, imports := [], patch := none, quiet := none,
    debug := false }

theorem read_bogus : Json.read "\x7b\"bogus\": \x7b\"value\": 1\x7d\x7d" =
    .ok (.object [("bogus", .object [("value", .int 1)])]) := by
  have hchars : "\x7b\"bogus\": \x7b\"value\": 1\x7d\x7d".toList =
      ['\x7b', '"', 'b', 'o', 'g', 'u', 's', '"', ':', ' ', '\x7b', '"', 'v', 'a', 'l', 'u', 'e',
        '"', ':', ' ', '1', '\x7d', '\x7d'] := by
    decide
  rw [Json.read, hchars]
  rfl

/-- An entry that names no setting is skipped with a line about it. -/
theorem prepare_handled_bogus :
    ∃ r first last, (prepare (some "\x7b\x7d") oneTarget).perform ⟨"/", [], []⟩ =
        (r, ⟨⟨"/", [], []⟩, first ++ last⟩) ∧
      ∃ line ∈ [[], [Message.unknownSetting "bogus"]],
        (prepare (some "\x7b\"bogus\": \x7b\"value\": 1\x7d\x7d") oneTarget).perform ⟨"/", [], []⟩ =
          (r, ⟨⟨"/", [], []⟩, first ++ line ++ last⟩) :=
  (prepare_handled none oneTarget ⟨"/", [], []⟩).2 _ "\x7b\x7d" [] "bogus"
    (.object [("value", .int 1)]) (.int 1) [] (by decide) (by decide) rfl read_bogus rfl

theorem read_config : Json.read "\x7b\"config\": \x7b\"value\": 1\x7d\x7d" =
    .ok (.object [("config", .object [("value", .int 1)])]) := by
  have hchars : "\x7b\"config\": \x7b\"value\": 1\x7d\x7d".toList =
      ['\x7b', '"', 'c', 'o', 'n', 'f', 'i', 'g', '"', ':', ' ', '\x7b', '"', 'v', 'a', 'l', 'u',
        'e', '"', ':', ' ', '1', '\x7d', '\x7d'] := by
    decide
  rw [Json.read, hchars]
  rfl

/-- An entry that names the configuration names no setting, and yet it is not skipped: the
configuration is not handled. -/
theorem prepare_config_fails :
    "config" ∉ settingKeys ∧
      ∀ r messages, (prepare (some "\x7b\"config\": \x7b\"value\": 1\x7d\x7d")
        oneTarget).perform ⟨"/", [], []⟩ = (r, ⟨⟨"/", [], []⟩, messages⟩) →
          ¬ IsHandled r messages := by
  have haccepted : IsAccepted ("config", .object [("value", .int 1)]) :=
    ⟨.int 1, rfl, (applyEntry_other start (by decide) _).1⟩
  have hends := ends_config start haccepted rfl []
  rw [← applyConfig_of_read start read_config] at hends
  refine ⟨by decide, fun r messages h => ?_⟩
  obtain ⟨rfl, -⟩ := Prod.mk.inj (((hends.map _).perform _).symm.trans h)
  exact not_isHandled_failure _ _

end Settings

end SchemaTypings.CommandLine
