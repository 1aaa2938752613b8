import SchemaTypings.Proofs.Derivation.Prefixes
import SchemaTypings.Proofs.Lexing.Placement
import SchemaTypings.Proofs.Quoted

/-!
# Where a text stops being a file

A step that does not go on either refuses its token or finds a name that is no literal
(`Progress.step_error`). So the tokens in front of a refused one begin a file and with it they do
not, and the end of the text is refused only when its tokens begin a file and are none
(`parse_error_located`). The line that is reported is that of the token in the text
(`line_of_mem_tokens`).
-/

namespace SchemaTypings.Declaration

/-- No file goes on where the error was found; the other errors are about a name in a file. -/
def ParseError.IsSyntaxError : ParseError → Prop
  | .unexpected _ | .unexpectedEnd => True
  | .badName _ => False

/-! ## What a step refuses -/

namespace Progress

/-- The step goes on or refuses the token. -/
def Refuses (t : Token) (s : Step) : Prop :=
  ∀ e, s = .error e → e = .unexpected t

theorem Refuses.ok {t : Token} (p : Progress) : Refuses t (.ok p) := by
  simp [Refuses]

theorem Refuses.unexpected {t : Token} : Refuses t (.error (.unexpected t)) :=
  fun _ he => (Except.error.inj he).symm

/-- Checking a name refuses no token. -/
theorem not_isSyntaxError_of_checkName {name : Token} {e : ParseError}
    (h : checkName name = .error e) : ¬ e.IsSyntaxError := by
  unfold checkName at h
  split at h
  · cases h
  · rw [← Except.error.inj h]
    exact id

variable (p : Progress) (t : Token)

theorem refuses_beginStatement : Refuses t (p.beginStatement t) := by
  unfold beginStatement
  split
  case h_6 => split <;> first | exact .ok _ | exact .unexpected
  all_goals first | exact .ok _ | exact .unexpected

theorem refuses_endType (type : TypeTree) (use : TypeUse) : Refuses t (p.endType type t use) := by
  cases use with
  | «alias» start parameters equals =>
    simp only [endType]
    split
    · exact .ok _
    · exact refuses_beginStatement _ t
  | member head colon object =>
    obtain ⟨opening, members, use⟩ := object
    simp only [endType]
    split
    · exact .ok _
    split
    · exact .ok _
    · exact .unexpected

theorem refuses_groupStep (b : Bracket) (opening : Leaf [b.opening]) (inside : Balanced)
    (use : GroupUse b) : Refuses t (p.groupStep b opening inside use t) := by
  unfold groupStep
  split
  · exact .ok _
  split
  · exact .ok _
  split <;> first | exact .ok _ | exact .unexpected

theorem refuses_importStep (i : OpenImport) : Refuses t (p.importStep i t) := by
  unfold importStep
  split
  · exact .ok _
  split
  · exact .ok _
  split
  · exact .ok _
  split
  · exact .unexpected
  split
  · exact .ok _
  · exact refuses_beginStatement _ t

theorem refuses_typeStep (run : Option TypeTree) (use : TypeUse) :
    Refuses t (p.typeStep run use t) := by
  unfold typeStep
  split
  · exact .ok _
  split
  case h_5 =>
    split
    · exact refuses_endType p t _ use
    · exact .unexpected
  all_goals exact .ok _

theorem refuses_memberStep (object : OpenObject) : Refuses t (p.memberStep object t) := by
  obtain ⟨opening, members, use⟩ := object
  unfold memberStep
  split
  · exact .ok _
  split
  all_goals first | exact .ok _ | exact .unexpected

theorem refuses_expect (k : Kind) (next : Leaf [k] → Position) :
    Refuses t (p.expect k t next) := by
  unfold expect
  split
  · exact .ok _
  · exact .unexpected

/-- A step that checks no name goes on or refuses its token. -/
theorem refuses_step (hmodule : ∀ declareWord word, p.position ≠ .moduleName declareWord word)
    (hmember : ∀ name object, p.position ≠ .memberName name object) : Refuses t (p.step t) := by
  unfold step
  split
  case h_1 => exact refuses_beginStatement p t
  case h_3 | h_7 | h_9 | h_18 => exact refuses_expect p t _ _
  case h_10 hposition => exact absurd hposition (hmodule _ _)
  case h_12 =>
    unfold importHeadStep
    split
    · exact .ok _
    · exact refuses_importStep p t _
  case h_13 => exact refuses_importStep p t _
  case h_14 => exact refuses_memberStep p t _
  case h_15 hposition => exact absurd hposition (hmember _ _)
  case h_19 => exact refuses_typeStep p t _ _
  case h_20 => exact refuses_groupStep p t _ _ _ _
  all_goals
    first
    | unfold exportedStep
    | unfold interfaceHeadStep
    | unfold referenceNameStep
    | unfold referenceTailStep
    | unfold aliasHeadStep
    | unfold moduleBraceStep
    | unfold memberMarkStep
    | unfold indexTailStep
    split <;> first | exact .ok _ | exact .unexpected

variable {p t}

/-- A step that does not go on refuses its token or checks a name: that of a module, which the token
is, or that of a member, which is the token in front. -/
theorem step_error {e : ParseError} (h : p.step t = .error e) :
    e = .unexpected t ∨
      (∃ declareWord word name, p.position = .moduleName declareWord word ∧ name.token = t ∧
        p.step t = readName t (p.goto (.moduleBrace declareWord word name))) ∨
      ∃ name object q, p.position = .memberName name object ∧ p.step t = readName name.token q ∧
        q.read = p.read ++ [t] := by
  cases hposition : p.position with
  | moduleName declareWord word =>
    have hstep : p.step t = p.moduleNameStep declareWord word t := by rw [step, hposition]
    rw [hstep, moduleNameStep] at h
    split at h
    · next hkind =>
      exact .inr (.inl ⟨declareWord, word, ⟨t, hkind⟩, rfl, rfl, by
        rw [hstep, moduleNameStep, dif_pos hkind]⟩)
    · exact .inl (Except.error.inj h).symm
  | memberName name object =>
    have hstep : p.step t = p.memberNameStep name object t := by rw [step, hposition]
    have hread : p.read = p.settled ++ (Position.memberName name object).yield := by
      rw [read, hposition]
    rw [hstep] at h ⊢
    unfold memberNameStep at h ⊢
    split at h
    case h_4 => exact .inl (Except.error.inj h).symm
    -- a mark, a colon or a parenthesis shows that the token in front is a name
    all_goals
      refine .inr (.inr ⟨name, object, _, rfl, rfl, ?_⟩)
      rw [hread]
      simp [Position.yield, GroupUse.yield, TypeUse.yield, MemberHead.yield]
  | _ => exact .inl (refuses_step p t (by simp [hposition]) (by simp [hposition]) e h)

/-- Going on where a token is a name fails with the error of its check. -/
theorem checkName_of_readName {name : Token} {q : Progress} {e : ParseError}
    (h : readName name q = .error e) : checkName name = .error e := by
  unfold readName at h
  cases hcheck : checkName name with
  | error e' =>
    rw [hcheck] at h
    exact congrArg _ (Except.error.inj h)
  | ok u =>
    rw [hcheck] at h
    cases h

/-- A step that refuses a token refuses its own. -/
theorem eq_unexpected_of_step {e : ParseError} (h : p.step t = .error e) (hkind : e.IsSyntaxError) :
    e = .unexpected t := by
  obtain he | ⟨declareWord, word, name, -, -, hstep⟩ | ⟨name, object, q, -, hstep, -⟩ :=
    step_error h
  · exact he
  · exact absurd hkind (not_isSyntaxError_of_checkName (checkName_of_readName (hstep ▸ h)))
  · exact absurd hkind (not_isSyntaxError_of_checkName (checkName_of_readName (hstep ▸ h)))

/-- Reading goes wrong at a token, behind others that are read. -/
theorem exists_of_steps_error {ts : List Token} {p : Progress} {e : ParseError}
    (h : ts.foldlM step p = .error e) :
    ∃ before t after q, ts = before ++ t :: after ∧ before.foldlM step p = .ok q ∧
      q.step t = .error e := by
  induction ts generalizing p with
  | nil => cases h
  | cons t rest ih =>
    cases hs : p.step t with
    | error e' =>
      rw [List.foldlM_cons, hs] at h
      exact ⟨[], t, rest, p, rfl, rfl, hs.trans h⟩
    | ok q =>
      rw [List.foldlM_cons, hs] at h
      obtain ⟨before, u, after, r, rfl, hbefore, hu⟩ := ih h
      refine ⟨t :: before, u, after, r, rfl, ?_, hu⟩
      rw [List.foldlM_cons, hs]
      exact hbefore

/-- A file that ends too early is refused as such. -/
theorem eq_unexpectedEnd_of_complete {e : ParseError} (h : p.complete = .error e) :
    e = .unexpectedEnd := by
  unfold complete at h
  split at h
  case h_4 => exact (Except.error.inj h).symm
  all_goals cases h

end Progress

open Progress

/-! ## What no file begins with -/

/-- Names are checked in order, and the first one that is refused is the error. -/
theorem not_isSyntaxError_of_forM {names : List Token} {e : ParseError}
    (h : forM names checkName = .error e) : ¬ e.IsSyntaxError := by
  induction names with
  | nil => cases h
  | cons name names ih =>
    rw [List.forM_cons] at h
    cases hcheck : checkName name with
    | error e' =>
      rw [hcheck] at h
      obtain rfl := Except.error.inj h
      exact not_isSyntaxError_of_checkName hcheck
    | ok u =>
      rw [hcheck] at h
      exact ih h

/-- The tokens of a derivation are read without a syntax error. -/
theorem not_isSyntaxError_of_derive_yield {d : Statements} {e : ParseError}
    (h : derive d.yield = .error e) : ¬ e.IsSyntaxError := by
  rw [derive_yield] at h
  cases hnames : forM d.names checkName with
  | ok u => simp [hnames, bind, Except.bind, pure, Except.pure] at h
  | error e' =>
    rw [hnames] at h
    obtain rfl := Except.error.inj h
    exact not_isSyntaxError_of_forM hnames

/-- No file goes on with a token that is refused. -/
theorem not_beginsFile_of_step {before : List Token} {t : Token} {q : Progress}
    (hbefore : before.foldlM step start = .ok q) (ht : q.step t = .error (.unexpected t)) :
    ¬ BeginsFile (before ++ [t]) := by
  rintro ⟨d, more, hyield⟩
  rw [List.append_assoc, List.singleton_append] at hyield
  have hstops : d.yield.foldlM step start = .error (.unexpected t) := by
    rw [← hyield, List.foldlM_append, hbefore]
    change (t :: more).foldlM step q = _
    rw [List.foldlM_cons, ht]
    rfl
  have hderive : derive d.yield = .error (.unexpected t) := by
    rw [derive, hstops]
    rfl
  exact not_isSyntaxError_of_derive_yield hderive trivial

/-! ## Messages -/

/-- What reading a text refuses is a token, or the end of the text. -/
theorem derive_error {ts : List Token} {e : ParseError} (h : derive ts = .error e)
    (hkind : e.IsSyntaxError) :
    (∃ before t after, e = .unexpected t ∧ ts = before ++ t :: after ∧ BeginsFile before ∧
        ¬ BeginsFile (before ++ [t])) ∨
      e = .unexpectedEnd ∧ BeginsFile ts := by
  cases hsteps : ts.foldlM step start with
  | error e' =>
    rw [derive, hsteps] at h
    obtain rfl := Except.error.inj h
    obtain ⟨before, t, after, q, hts, hbefore, ht⟩ := exists_of_steps_error hsteps
    obtain rfl := eq_unexpected_of_step ht hkind
    have hbegins : BeginsFile before := by
      have hread : q.read = before := read_steps hbefore
      exact hread ▸ q.beginsFile_read
    exact .inl ⟨before, t, after, rfl, hts, hbegins, not_beginsFile_of_step hbefore ht⟩
  | ok p =>
    rw [derive, hsteps] at h
    have hread : p.read = ts := read_steps hsteps
    exact .inr ⟨eq_unexpectedEnd_of_complete h, hread ▸ p.beginsFile_read⟩

/-- The message about a token is told from the one about the end by the quote of its text. -/
theorem quoted_append_ne (value rest : String) :
    "unexpected " ++ Text.quoted value ++ rest ≠ "unexpected end of declarations" := by
  intro h
  rw [String.append_assoc, show "unexpected end of declarations" =
    "unexpected " ++ "end of declarations" from rfl, String.append_right_inj] at h
  obtain ⟨c, hc, hquote⟩ := Text.exists_head_quoted value
  have hhead : ("end of declarations".toList).head? = some c := by
    rw [← h, String.toList_append, List.head?_append, hc]
    rfl
  obtain rfl : 'e' = c := Option.some.inj hhead
  obtain hquote | hquote := hquote <;> cases hquote

/-- The message about a token tells its text and its line. -/
theorem message_unexpected_inj {t : Token} {value : String} {line : Nat}
    (h : (ParseError.unexpected t).message =
      "unexpected " ++ Text.quoted value ++ " on line " ++ toString line) :
    t.text = value ∧ t.line = line := by
  simp only [ParseError.message, String.append_assoc, String.append_right_inj] at h
  obtain ⟨htext, hline⟩ := Text.quoted_append_inj h
  refine ⟨htext, ?_⟩
  rw [String.append_right_inj] at hline
  have hdigits : Nat.toDigits 10 t.line = Nat.toDigits 10 line := by
    simpa using congrArg String.toList hline
  calc t.line = Nat.ofDigitChars 10 (Nat.toDigits 10 t.line) 0 := by simp
    _ = Nat.ofDigitChars 10 (Nat.toDigits 10 line) 0 := by rw [hdigits]
    _ = line := by simp

/-- A syntax error is located exactly. When the message tells of a text and a line, a token with
that text stands in the text at that line, the tokens in front of it begin a file, and with it they
begin none. When it tells of the end, the tokens of the text begin a file and are none. There is no
other message. -/
theorem parse_error_located (text : String) (e : ParseError) (h : parse text = .error e)
    (hkind : e.IsSyntaxError) :
    ((∃ value line, e.message =
        "unexpected " ++ Text.quoted value ++ " on line " ++ toString (line : Nat)) ∨
      e.message = "unexpected end of declarations") ∧
    (∀ value line, e.message =
        "unexpected " ++ Text.quoted value ++ " on line " ++ toString (line : Nat) →
      ∃ before t after, tokens text = before ++ t :: after ∧ t.text = value ∧
        BeginsFile before ∧ ¬ BeginsFile (before ++ [t]) ∧
        line = 1 + (text.toList.take t.offset).count '\n') ∧
    (e.message = "unexpected end of declarations" →
      BeginsFile (tokens text) ∧ ∀ d : Statements, d.yield ≠ tokens text) := by
  have hderive : derive (tokens text) = .error e := by
    unfold parse at h
    cases hd : derive (tokens text) with
    | error e' =>
      rw [hd] at h
      exact congrArg _ (Except.error.inj h)
    | ok d =>
      rw [hd] at h
      cases h
  obtain ⟨before, t, after, rfl, htokens, hbefore, ht⟩ | ⟨rfl, hbegins⟩ :=
    derive_error hderive hkind
  · refine ⟨.inl ⟨t.text, t.line, rfl⟩, ?_, fun hend => ?_⟩
    · intro value line hmessage
      obtain ⟨htext, hline⟩ := message_unexpected_inj hmessage
      refine ⟨before, t, after, htokens, htext, hbefore, ht, ?_⟩
      rw [← hline]
      exact line_of_mem_tokens (by simp [htokens])
    · rw [ParseError.message, String.append_assoc] at hend
      exact absurd hend (quoted_append_ne _ _)
  · refine ⟨.inr rfl, ?_, fun _ => ⟨hbegins, fun d hd => ?_⟩⟩
    · intro value line hmessage
      rw [String.append_assoc] at hmessage
      exact absurd hmessage.symm (quoted_append_ne _ _)
    · exact not_isSyntaxError_of_derive_yield (hd ▸ hderive) hkind

/-- The tokens of a file that has no type where one is due, on its second line. -/
theorem tokens_missingType : tokens "type A =\n;" =
    [⟨.typeWord, "type", 1, 0⟩, ⟨.identifier, "A", 1, 5⟩, ⟨.equals, "=", 1, 7⟩,
      ⟨.semicolon, ";", 2, 9⟩] := by
  decide

/-- The tokens of a file that ends inside an interface. -/
theorem tokens_unclosed : tokens "interface A \x7b" =
    [⟨.interfaceWord, "interface", 1, 0⟩, ⟨.identifier, "A", 1, 10⟩,
      ⟨.leftBrace, "\x7b", 1, 12⟩] := by
  decide

/-- A missing type is located at the semicolon in its place, and a missing brace at the end. -/
theorem parse_error_located_here :
    (∃ before t after, tokens "type A =\n;" = before ++ t :: after ∧ t.text = ";" ∧
        BeginsFile before ∧ ¬ BeginsFile (before ++ [t]) ∧
        2 = 1 + ("type A =\n;".toList.take t.offset).count '\n') ∧
      BeginsFile (tokens "interface A \x7b") ∧
      ∀ d : Statements, d.yield ≠ tokens "interface A \x7b" := by
  have htype : parse "type A =\n;" = .error (.unexpected ⟨.semicolon, ";", 2, 9⟩) := by
    unfold parse
    rw [tokens_missingType]
    rfl
  have hclose : parse "interface A \x7b" = .error .unexpectedEnd := by
    unfold parse
    rw [tokens_unclosed]
    rfl
  exact ⟨(parse_error_located _ _ htype trivial).2.1 ";" 2 rfl,
    (parse_error_located _ _ hclose trivial).2.2 rfl⟩

end SchemaTypings.Declaration
