import SchemaTypings.Declaration.Source
import SchemaTypings.Proofs.Derivation.Faults
import SchemaTypings.Proofs.Derivation.Files

/-!
# Names that stop the reading of a text

A text is a file, or it is refused with a syntax error, or reading it stops at a name in double
quotes that is no string literal. The tokens that are read one by one without an error are those
that begin a file whose names can all be read, but for the name of a member at their end, which is
checked only when the token behind it shows what it is (`beginsReadable_iff`). So reading stops at a
name exactly where the tokens still begin a file and cease to begin one with readable names
(`derive_eq_badName_iff`).
-/

namespace SchemaTypings.Declaration

open Progress

/-- Some file begins with these tokens, and all of its names can be read. -/
def BeginsReadable (ts : List Token) : Prop :=
  ∃ d : Statements, ts <+: d.yield ∧ ∀ t ∈ d.names, ∃ s, unquote t.text = .ok s

/-- Among these tokens is a name at which reading stops with an error: with the tokens in front of
it a file with readable names may begin, but with it only a file with names that cannot be read. A
module has its name behind the word `module`; that something is the name of a member is known when
the token behind it goes on with a file. -/
def StopsAtName (ts : List Token) (e : Json.ReadError) : Prop :=
  ∃ before name after, ts = before ++ name :: after ∧ unquote name.text = .error e ∧
    BeginsReadable before ∧ BeginsFile (before ++ [name]) ∧ ¬ BeginsReadable (before ++ [name]) ∧
    ((∃ word ∈ before.getLast?, word.kind = .moduleWord) ∨
      ∃ next ∈ after.head?, BeginsFile (before ++ [name, next]))

/-! ## Checked names -/

/-- The check of a name fails when it stands for no text. -/
theorem checkName_eq_error_iff (t : Token) (e : ParseError) :
    checkName t = .error e ↔ ∃ e', unquote t.text = .error e' ∧ e = .badName e' := by
  unfold checkName
  cases unquote t.text <;> simp [eq_comm]

namespace Progress

variable {p q : Progress}

/-- Tokens are read from one place to another in two stretches. -/
theorem steps_append {ts us : List Token} (h : (ts ++ us).foldlM step p = .ok q) :
    ∃ r, ts.foldlM step p = .ok r ∧ us.foldlM step r = .ok q := by
  rw [List.foldlM_append] at h
  cases hts : ts.foldlM step p with
  | error e =>
    rw [hts] at h
    cases h
  | ok r =>
    rw [hts] at h
    exact ⟨r, rfl, h⟩

/-- The step behind the name of a member goes on only when the name can be read. -/
theorem checkName_of_step {t : Token} (h : p.step t = .ok q) {name : Leaf nameKinds}
    {object : OpenObject} (hposition : p.position = .memberName name object) :
    checkName name.token = .ok () := by
  have hstep : p.step t = p.memberNameStep name object t := by rw [step, hposition]
  rw [hstep] at h
  unfold memberNameStep at h
  split at h
  case h_4 => cases h
  all_goals
    unfold readName at h
    cases hcheck : checkName name.token with
    | ok u => rfl
    | error e =>
      rw [hcheck] at h
      cases h

/-- A file can end where a step goes on. -/
theorem canEnd_of_step_eq_ok {t : Token} (h : p.step t = .ok q) : p.CanEnd :=
  p.canEnd fun _ _ hposition => checkName_of_step h hposition

/-- No file ends behind the name of a member that cannot be read. -/
theorem checkName_of_canEnd (h : p.CanEnd) {name : Leaf nameKinds} {object : OpenObject}
    (hposition : p.position = .memberName name object) : checkName name.token = .ok () := by
  obtain ⟨more, q, d, hmore, hd⟩ := h
  cases more with
  | nil =>
    obtain rfl : p = q := Except.ok.inj hmore
    unfold complete at hd
    rw [hposition] at hd
    split at hd <;> contradiction
  | cons t more =>
    obtain ⟨r, hr, -⟩ := @steps_append p q [t] more hmore
    have hstep : p.step t = .ok r := by simpa using hr
    exact checkName_of_step hstep hposition

/-- The tokens that have been read at the name of a member end with the name. -/
theorem read_memberName {name : Leaf nameKinds} {object : OpenObject}
    (hposition : p.position = .memberName name object) :
    p.read = p.settled ++ object.yield ++ [name.token] := by
  rw [read, hposition, Position.yield, List.append_assoc]

end Progress

/-! ## What can be read -/

/-- The tokens that begin a file with readable names are those that lead to a place where a file can
end. -/
theorem beginsReadable_iff (ts : List Token) :
    BeginsReadable ts ↔ ∃ p, ts.foldlM step start = .ok p ∧ p.CanEnd := by
  constructor
  · rintro ⟨d, ⟨more, hmore⟩, hnames⟩
    have hderive : derive d.yield = .ok d := by
      rw [derive_yield, checked_eq_ok_iff, forM_checkName_eq_ok_iff]
      exact ⟨fun t ht => (checkName_eq_ok_iff t).mpr (hnames t ht), rfl⟩
    rw [← hmore, derive] at hderive
    cases hsteps : (ts ++ more).foldlM step start with
    | error e =>
      rw [hsteps] at hderive
      cases hderive
    | ok q =>
      rw [hsteps] at hderive
      obtain ⟨p, hp, hq⟩ := steps_append hsteps
      exact ⟨p, hp, more, q, d, hq, hderive⟩
  · rintro ⟨p, hp, more, q, d, hmore, hd⟩
    have hall : (ts ++ more).foldlM step start = .ok q := by
      rw [List.foldlM_append, hp]
      exact hmore
    have hderive : derive (ts ++ more) = .ok d := by
      rw [derive, hall]
      exact hd
    have hyield := yield_of_derive hderive
    rw [← hyield, derive_yield, checked_eq_ok_iff, forM_checkName_eq_ok_iff] at hderive
    exact ⟨d, hyield ▸ List.prefix_append _ _, fun t ht =>
      (checkName_eq_ok_iff t).mp (hderive.1 t ht)⟩

/-- Where no file can end, the name of a member was read last. -/
theorem exists_memberName_of_not_canEnd {p : Progress} (h : ¬ p.CanEnd) :
    ∃ name object, p.position = .memberName name object := by
  by_contra hnone
  exact h (p.canEnd fun name object hposition => absurd ⟨name, object, hposition⟩ hnone)

/-- The last token of an open object type is its brace or the separator of a member. -/
theorem exists_last_openObject (object : OpenObject) :
    ∃ front last, object.yield = front ++ [last] ∧ last.kind ≠ .moduleWord := by
  obtain ⟨opening, members, use⟩ := object
  cases members with
  | empty =>
    refine ⟨use.yield, opening.token, rfl, ?_⟩
    rw [opening.kind_eq]
    decide
  | more before member separator =>
    refine ⟨use.yield ++ opening.token :: (before.yield ++ member.yield), separator.token, ?_, ?_⟩
    · simp [OpenObject.yield, MemberList.yield]
    · have hkind := separator.kind_mem
      intro hword
      rw [hword] at hkind
      revert hkind
      decide

/-! ## Where reading stops -/

section Step

variable {before after : List Token} {t : Token} {p : Progress} {e : Json.ReadError}

/-- The name of a module is read before the token behind it. -/
theorem stopsAtName_of_moduleName (hbefore : before.foldlM step start = .ok p)
    {declareWord : Leaf [.declareWord]} {word : Leaf [.moduleWord]}
    {name : Leaf [.string, .identifier]} (hposition : p.position = .moduleName declareWord word)
    (ht : p.step name.token = .error (.badName e)) (hname : unquote name.token.text = .error e) :
    StopsAtName (before ++ name.token :: after) e := by
  have hread : p.read = before := read_steps hbefore
  have hlast : before = p.settled ++ [declareWord.token] ++ [word.token] := by
    rw [← hread, Progress.read, hposition]
    simp [Position.yield]
  have hnamed : BeginsFile (before ++ [name.token]) := by
    have h := (p.goto (.moduleBrace declareWord word name)).beginsFile_read
    rwa [read_goto, show p.settled ++ (Position.moduleBrace declareWord word name).yield =
      before ++ [name.token] by rw [hlast]; simp [Position.yield]] at h
  refine ⟨before, name.token, after, rfl, hname, ?_, hnamed, ?_, .inl ⟨word.token, ?_, ?_⟩⟩
  · exact (beginsReadable_iff _).mpr ⟨p, hbefore, p.canEnd (by simp [hposition])⟩
  · rw [beginsReadable_iff]
    rintro ⟨q, hq, -⟩
    obtain ⟨r, hr, hlast⟩ := steps_append hq
    obtain rfl := Except.ok.inj (hbefore.symm.trans hr)
    have hgoes : p.step name.token = .ok q := by simpa using hlast
    rw [ht] at hgoes
    cases hgoes
  · simp [hlast]
  · exact word.kind_eq

/-- That a name is the one of a member shows at the token behind it. -/
theorem stopsAtName_of_memberName (hbefore : before.foldlM step start = .ok p)
    {name : Leaf nameKinds} {object : OpenObject}
    (hposition : p.position = .memberName name object) {q : Progress}
    (hq : q.read = p.read ++ [t]) (hname : unquote name.token.text = .error e) :
    StopsAtName (before ++ t :: after) e := by
  have hread : p.read = before := read_steps hbefore
  have hends := hread ▸ read_memberName hposition
  generalize p.settled ++ object.yield = front at hends
  subst hends
  obtain ⟨r, hr, hlast⟩ := steps_append hbefore
  have hgoes : r.step name.token = .ok p := by simpa using hlast
  refine ⟨front, name.token, t :: after, by simp, hname, ?_, ?_, ?_, .inr ⟨t, by simp, ?_⟩⟩
  · exact (beginsReadable_iff _).mpr ⟨r, hr, canEnd_of_step_eq_ok hgoes⟩
  · exact hread ▸ p.beginsFile_read
  · rw [beginsReadable_iff]
    rintro ⟨p', hp', hends⟩
    obtain rfl := Except.ok.inj (hbefore.symm.trans hp')
    obtain ⟨s, hs⟩ := (checkName_eq_ok_iff _).mp (checkName_of_canEnd hends hposition)
    rw [hname] at hs
    cases hs
  · have h := q.beginsFile_read
    rwa [hq, hread, List.append_assoc] at h

/-- Reading stops at the name of a module, or at the token behind the name of a member. -/
theorem stopsAtName_of_step (hbefore : before.foldlM step start = .ok p)
    (ht : p.step t = .error (.badName e)) : StopsAtName (before ++ t :: after) e := by
  obtain he | ⟨declareWord, word, name, hposition, rfl, hstep⟩ |
    ⟨name, object, q, hposition, hstep, hq⟩ := step_error ht
  · cases he
  · have hcheck := checkName_of_readName (hstep ▸ ht)
    obtain ⟨e', hname, heq⟩ := (checkName_eq_error_iff _ _).mp hcheck
    obtain rfl := ParseError.badName.inj heq
    exact stopsAtName_of_moduleName hbefore hposition ht hname
  · have hcheck := checkName_of_readName (hstep ▸ ht)
    obtain ⟨e', hname, heq⟩ := (checkName_eq_error_iff _ _).mp hcheck
    obtain rfl := ParseError.badName.inj heq
    exact stopsAtName_of_memberName hbefore hposition hq hname

end Step

/-- Reading goes wrong where a step does. -/
theorem derive_eq_error_of_step {before after : List Token} {t : Token} {p : Progress}
    {e : ParseError} (hbefore : before.foldlM step start = .ok p) (ht : p.step t = .error e) :
    derive (before ++ t :: after) = .error e := by
  have hsteps : (before ++ t :: after).foldlM step start = .error e := by
    rw [List.foldlM_append, hbefore]
    change (t :: after).foldlM step p = _
    rw [List.foldlM_cons, ht]
    rfl
  rw [derive, hsteps]
  rfl

/-- A step that no file forbids goes on or finds a name that cannot be read. -/
theorem exists_badName_of_step {before : List Token} {t : Token} {p : Progress} {e : ParseError}
    (hbefore : before.foldlM step start = .ok p) (ht : p.step t = .error e)
    (hbegins : BeginsFile (before ++ [t])) : ∃ e', e = .badName e' := by
  cases e with
  | badName e' => exact ⟨e', rfl⟩
  | unexpected u =>
    obtain rfl := ParseError.unexpected.inj (eq_unexpected_of_step ht trivial)
    exact absurd hbegins (not_beginsFile_of_step hbefore ht)
  | unexpectedEnd =>
    cases eq_unexpected_of_step ht trivial

/-- A step behind a place where a file can end stops at its own token if at a name. -/
theorem unquote_of_step {p : Progress} (hends : p.CanEnd) {t : Token} {e : Json.ReadError}
    (ht : p.step t = .error (.badName e)) : unquote t.text = .error e := by
  obtain he | ⟨declareWord, word, name, -, rfl, hstep⟩ | ⟨name, object, q, hposition, hstep, -⟩ :=
    step_error ht
  · cases he
  · have hcheck := checkName_of_readName (hstep ▸ ht)
    obtain ⟨e', hname, heq⟩ := (checkName_eq_error_iff _ _).mp hcheck
    rwa [ParseError.badName.inj heq]
  · have hcheck := checkName_of_readName (hstep ▸ ht)
    rw [checkName_of_canEnd hends hposition] at hcheck
    cases hcheck

/-- A step behind the name of a member that cannot be read stops at the name, when a file goes on
with the token there. -/
theorem step_of_faultyMember {ts : List Token} {q : Progress} (hq : ts.foldlM step start = .ok q)
    {name : Leaf nameKinds} {object : OpenObject} (hposition : q.position = .memberName name object)
    {e : Json.ReadError} (hname : unquote name.token.text = .error e) {next : Token}
    (hgoes : BeginsFile (ts ++ [next])) : q.step next = .error (.badName e) := by
  cases hstep : q.step next with
  | ok r =>
    obtain ⟨s, hs⟩ := (checkName_eq_ok_iff _).mp (checkName_of_step hstep hposition)
    rw [hname] at hs
    cases hs
  | error e' =>
    obtain ⟨e', rfl⟩ := exists_badName_of_step hq hstep hgoes
    obtain he | ⟨declareWord, word, other, hother, -⟩ | ⟨other, object', r, hother, hr, -⟩ :=
      step_error hstep
    · cases he
    · rw [hposition] at hother
      cases hother
    · rw [hposition] at hother
      obtain ⟨rfl, -⟩ := Position.memberName.inj hother
      have hcheck := checkName_of_readName (hr ▸ hstep)
      obtain ⟨e'', hfault, heq⟩ := (checkName_eq_error_iff _ _).mp hcheck
      rw [hname] at hfault
      rw [heq, ← Except.error.inj hfault]

/-- Reading stops at the name that is named. -/
theorem derive_of_stopsAtName {ts : List Token} {e : Json.ReadError} (h : StopsAtName ts e) :
    derive ts = .error (.badName e) := by
  obtain ⟨before, name, after, rfl, hname, hbefore, hbegins, hnot, hknown⟩ := h
  obtain ⟨p, hp, hends⟩ := (beginsReadable_iff _).mp hbefore
  cases hstep : p.step name with
  | error e' =>
    obtain ⟨e', rfl⟩ := exists_badName_of_step hp hstep hbegins
    have he := unquote_of_step hends hstep
    rw [hname] at he
    rw [Except.error.inj he]
    exact derive_eq_error_of_step hp hstep
  | ok q =>
    -- the name is that of a member, which the next step checks
    have hq : (before ++ [name]).foldlM step start = .ok q := by
      rw [List.foldlM_append, hp]
      change [name].foldlM step p = _
      simpa using hstep
    have hcannot : ¬ q.CanEnd := fun h => hnot ((beginsReadable_iff _).mpr ⟨q, hq, h⟩)
    obtain ⟨leaf, object, hposition⟩ := exists_memberName_of_not_canEnd hcannot
    have hread : q.settled ++ object.yield ++ [leaf.token] = before ++ [name] :=
      (read_memberName hposition).symm.trans (read_steps hq)
    obtain ⟨hfront, hleaf⟩ := List.append_inj' hread rfl
    obtain rfl := List.singleton_inj.mp hleaf
    obtain ⟨word, hword, hkind⟩ | ⟨next, hnext, hgoes⟩ := hknown
    · -- a member does not follow the word `module`
      obtain ⟨front, last, hobject, hne⟩ := exists_last_openObject object
      rw [← hfront, hobject, ← List.append_assoc, List.getLast?_concat] at hword
      exact absurd (Option.some.inj hword ▸ hkind) hne
    · obtain ⟨after, rfl⟩ := List.head?_eq_some_iff.mp hnext
      have hnextStep := step_of_faultyMember hq hposition hname (by simpa using hgoes)
      rw [List.append_cons]
      exact derive_eq_error_of_step hq hnextStep

/-- Reading tokens stops at a name exactly when they hold one at which it stops. -/
theorem derive_eq_badName_iff (ts : List Token) (e : Json.ReadError) :
    derive ts = .error (.badName e) ↔ StopsAtName ts e := by
  refine ⟨fun h => ?_, derive_of_stopsAtName⟩
  cases hsteps : ts.foldlM step start with
  | error e' =>
    rw [derive, hsteps] at h
    obtain rfl : e' = .badName e := Except.error.inj h
    obtain ⟨before, t, after, p, rfl, hbefore, ht⟩ := exists_of_steps_error hsteps
    exact stopsAtName_of_step hbefore ht
  | ok p =>
    rw [derive, hsteps] at h
    cases eq_unexpectedEnd_of_complete h

/-! ## Files -/

/-- A text is refused with an error about a name exactly when reading its tokens stops at one. -/
theorem parse_eq_badName_iff (text : String) (e : Json.ReadError) :
    parse text = .error (.badName e) ↔ StopsAtName (tokens text) e := by
  rw [← derive_eq_badName_iff, parse]
  cases derive (tokens text) <;> simp [Except.map]

/-- A text that is no file and has no syntax error is one where reading stops at a name. -/
theorem parse_reported_iff (text : String) :
    (∃ file, parse text = .ok file) ∨ (∃ e, parse text = .error e ∧ e.IsSyntaxError) ↔
      ∀ e, ¬ StopsAtName (tokens text) e := by
  simp only [← parse_eq_badName_iff]
  cases parse text with
  | ok file => simp
  | error e => cases e <;> simp [ParseError.IsSyntaxError]

namespace SourceFile

/-- A file is made of a text that can be read. -/
theorem exists_ofText_iff (text : String) :
    (∃ file, ofText text = .ok file) ↔ ∃ statements, parse text = .ok statements := by
  unfold ofText
  cases parse text <;> simp [Except.map]

/-- What is wrong with a text is why no file is made of it. -/
theorem ofText_eq_error_iff (text : String) (e : ParseError) :
    ofText text = .error e ↔ parse text = .error e := by
  unfold ofText
  cases parse text <;> simp [Except.map]

variable (f : SourceFile) (text : String)

/-- A text can be appended when the whole can be read. -/
theorem append_eq_none_iff :
    (f.append text).2 = none ↔ ∃ statements, parse (f.fullText ++ text) = .ok statements := by
  cases h : parse (f.fullText ++ text) <;> simp [append, h]

/-- What is wrong with the whole is what is reported when a text is appended. -/
theorem append_eq_some_iff (e : ParseError) :
    (f.append text).2 = some e ↔ parse (f.fullText ++ text) = .error e := by
  cases h : parse (f.fullText ++ text) <;> simp [append, h]

end SourceFile

/-- A text becomes a file or is refused with a syntax error, unless it has a name at which reading
stops; then it is refused with the error about that name. The same holds of the whole text when a
text is appended to a file. -/
theorem append_reported_iff (f : SourceFile) (text : String) :
    ((∃ file, SourceFile.ofText text = .ok file) ∨
        (∃ e, SourceFile.ofText text = .error e ∧ e.IsSyntaxError) ↔
      ∀ e, ¬ StopsAtName (tokens text) e) ∧
    (∀ e, SourceFile.ofText text = .error (.badName e) ↔ StopsAtName (tokens text) e) ∧
    ((f.append text).2 = none ∨ (∃ e, (f.append text).2 = some e ∧ e.IsSyntaxError) ↔
      ∀ e, ¬ StopsAtName (tokens (f.fullText ++ text)) e) ∧
    (∀ e, (f.append text).2 = some (.badName e) ↔ StopsAtName (tokens (f.fullText ++ text)) e) := by
  simp only [SourceFile.exists_ofText_iff, SourceFile.ofText_eq_error_iff,
    SourceFile.append_eq_none_iff, SourceFile.append_eq_some_iff]
  exact ⟨parse_reported_iff text, parse_eq_badName_iff text,
    parse_reported_iff _, parse_eq_badName_iff _⟩

/-- The tokens of an interface whose only member has a name with an escape that JSON lacks. -/
theorem tokens_faultyName : tokens "interface A \x7b\"\\x\": B\x7d" =
    [⟨.interfaceWord, "interface", 1, 0⟩, ⟨.identifier, "A", 1, 10⟩,
      ⟨.leftBrace, "\x7b", 1, 12⟩, ⟨.string, "\"\\x\"", 1, 13⟩, ⟨.colon, ":", 1, 17⟩,
      ⟨.identifier, "B", 1, 19⟩, ⟨.rightBrace, "\x7d", 1, 20⟩] := by
  decide

/-- A text that is no file is refused with something else than a syntax error when the name of a
member has an escape that JSON lacks. -/
theorem ofText_faultyName_not_reported :
    ¬ ((∃ file, SourceFile.ofText "interface A \x7b\"\\x\": B\x7d" = .ok file) ∨
      ∃ e, SourceFile.ofText "interface A \x7b\"\\x\": B\x7d" = .error e ∧ e.IsSyntaxError) := by
  have hfault : ∃ e, parse "interface A \x7b\"\\x\": B\x7d" = .error (.badName e) := by
    unfold parse
    rw [tokens_faultyName]
    exact ⟨_, rfl⟩
  obtain ⟨e, he⟩ := hfault
  rw [SourceFile.exists_ofText_iff]
  simp only [SourceFile.ofText_eq_error_iff, he]
  rintro (⟨file, h⟩ | ⟨e', h, hkind⟩)
  · cases h
  · rw [← Except.error.inj h] at hkind
    exact hkind

end SchemaTypings.Declaration
