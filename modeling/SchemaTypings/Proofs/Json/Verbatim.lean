import SchemaTypings.Proofs.Json.Literals
import SchemaTypings.Proofs.Lexing.Pieces

/-!
# Texts in quotes as they are

A text without quotes, backslashes and control characters is `IsVerbatim`: it stands in double
quotes as it is, and is read back. Every other text is read back as another one, or not at all:
an escape takes up more room than what it stands for, so that a literal which is read as a text of
its own length has none in it (`StringContent.exists_readPieces_le`).
`eq_of_stringRest` says this of a literal at the front of a union, where the lexer decides how far
it goes.
-/

namespace SchemaTypings.Json

open Declaration (StringRest)

/-- A text that a string literal has between its quotes as it is. -/
def IsVerbatim (cs : List Char) : Prop :=
  ∀ c ∈ cs, c ≠ '"' ∧ c ≠ '\\' ∧ 0x20 ≤ c.toNat

instance (cs : List Char) : Decidable (IsVerbatim cs) :=
  List.decidableBAll _ cs

theorem isVerbatim_cons {c : Char} {cs : List Char} :
    IsVerbatim (c :: cs) ↔ (c ≠ '"' ∧ c ≠ '\\' ∧ 0x20 ≤ c.toNat) ∧ IsVerbatim cs :=
  List.forall_mem_cons

/-! ## Reading -/

/-- A verbatim text is read character by character. -/
theorem IsVerbatim.readPieces_eq {cs : List Char} (h : IsVerbatim cs) (opening left : List Char) :
    readPieces opening (cs ++ '"' :: left) = .ok (cs.map .char, left) := by
  induction cs with
  | nil => exact readPieces_quote opening left
  | cons c cs ih =>
    obtain ⟨⟨hquote, hslash, hcontrol⟩, hcs⟩ := isVerbatim_cons.mp h
    rw [List.cons_append, readPieces_char opening hcontrol hquote hslash, ih hcs]
    rfl

theorem joinPieces_map_char (cs : List Char) : joinPieces (cs.map .char) = cs := by
  induction cs with
  | nil => rfl
  | cons c cs ih => rw [List.map_cons, joinPieces, ih]

/-- A verbatim text in quotes is read back. -/
theorem IsVerbatim.unquote_eq {cs : List Char} (h : IsVerbatim cs) :
    unquote (String.ofList ('"' :: (cs ++ ['"']))) = .ok (String.ofList cs) :=
  (unquote_eq_ok_iff _ _).mpr ⟨_, [], h.readPieces_eq _ [], rfl, by rw [joinPieces_map_char]⟩

/-- The lexer takes a verbatim text in quotes for one string. -/
theorem IsVerbatim.stringRest {cs : List Char} (h : IsVerbatim cs) : StringRest '"' (cs ++ ['"']) := by
  refine Declaration.stringRest_concat fun c hc => ?_
  obtain ⟨hquote, hslash, hcontrol⟩ := h c hc
  refine ⟨hquote, hslash, ?_⟩
  rintro rfl
  exact absurd hcontrol (by decide)

/-! ## What is read back was verbatim -/

/-- The pieces of a text make no more characters than there are pieces. -/
theorem length_joinPieces_le (ps : List Piece) : (joinPieces ps).length ≤ ps.length := by
  fun_induction joinPieces ps
  all_goals
    simp only [List.length_nil, List.length_cons] at *
    omega

/-- The last character is made by the last piece. -/
theorem joinPieces_concat (ps : List Piece) (c : Char) :
    joinPieces (ps ++ [.char c]) = joinPieces ps ++ [c] := by
  induction ps using joinPieces.induct with
  | case1 => rfl
  | case2 d rest ih => simp [joinPieces, ih]
  | case3 high low rest h ih =>
    rw [List.cons_append, List.cons_append, joinPieces, if_pos h, ih, joinPieces, if_pos h]
    rfl
  | case4 high low rest h h' ih =>
    rw [List.cons_append] at ih
    rw [List.cons_append, List.cons_append, joinPieces, if_neg h, if_pos h', ih, joinPieces,
      if_neg h, if_pos h']
    rfl
  | case5 high low rest h h' ih =>
    rw [List.cons_append] at ih
    rw [List.cons_append, List.cons_append, joinPieces, if_neg h, if_neg h', ih, joinPieces,
      if_neg h, if_neg h']
    rfl
  | case6 n rest hrest ih =>
    cases rest with
    | nil => simp [joinPieces]
    | cons p rest =>
      cases p with
      | char d => simp_all [joinPieces]
      | unit low => exact absurd rfl (hrest low rest)

/-- The last character of a text and of one with something in front of it. -/
theorem getLast?_cons_eq {α : Type} {a : α} {as : List α} {b : α} :
    (a :: as).getLast? = some b ↔ as.getLast? = some b ∨ as = [] ∧ a = b := by
  cases as <;> simp [List.getLast?_cons_cons]

/-- A literal has no fewer characters than there are pieces read from it, as many only if it is
verbatim, and a blank at its end is a piece of its own. -/
theorem StringContent.exists_readPieces_le {content : List Char} (h : StringContent content)
    (opening left : List Char) :
    ∃ ps, readPieces opening (content ++ '"' :: left) = .ok (ps, left) ∧
      ps.length ≤ content.length ∧ (content.length ≤ ps.length → IsVerbatim content) ∧
      (content.getLast? = some ' ' → ps.getLast? = some (.char ' ')) := by
  induction h with
  | empty => exact ⟨[], readPieces_quote opening left, by simp, fun _ => by simp [IsVerbatim], by simp⟩
  | @char c cs hcontrol hquote hslash _ ih =>
    obtain ⟨ps, hps, hle, hverbatim, hlast⟩ := ih
    refine ⟨.char c :: ps, ?_, by simpa using hle, fun hge => ?_, fun hblank => ?_⟩
    · simp [readPieces_char opening hcontrol hquote hslash, hps, Except.map]
    · exact isVerbatim_cons.mpr ⟨⟨hquote, hslash, hcontrol⟩, hverbatim (by simpa using hge)⟩
    · rw [getLast?_cons_eq] at hblank ⊢
      rcases hblank with hblank | ⟨rfl, rfl⟩
      · exact .inl (hlast hblank)
      · exact .inr ⟨List.eq_nil_of_length_eq_zero (by simpa using hle), rfl⟩
  | @escape c cs hc _ ih =>
    obtain ⟨ps, hps, hle, hverbatim, hlast⟩ := ih
    obtain ⟨meant, hmeant⟩ := Option.isSome_iff_exists.mp ((unescape?_isSome_iff c).mpr hc)
    refine ⟨.char meant :: ps, ?_, ?_, ?_, fun hblank => ?_⟩
    · simp [readPieces_escape opening hmeant, hps, Except.map]
    · simp only [List.length_cons]; omega
    · simp only [List.length_cons]; omega
    · rw [List.getLast?_cons_cons, getLast?_cons_eq] at hblank
      rcases hblank with hblank | ⟨-, rfl⟩
      · exact getLast?_cons_eq.mpr (.inl (hlast hblank))
      · exact absurd hc (by decide)
  | @unit a b c d cs hdigits _ ih =>
    obtain ⟨ps, hps, hle, hverbatim, hlast⟩ := ih
    have hsome : (unitValue? a b c d).isSome := by
      rw [unitValue?_isSome]
      simpa using hdigits
    obtain ⟨n, hn⟩ := Option.isSome_iff_exists.mp hsome
    refine ⟨.unit n :: ps, ?_, ?_, ?_, fun hblank => ?_⟩
    · simp [readPieces_unit opening hn, hps, Except.map]
    · simp only [List.length_cons]; omega
    · simp only [List.length_cons]; omega
    · simp only [List.getLast?_cons_cons, getLast?_cons_eq] at hblank
      rcases hblank with hblank | ⟨-, rfl⟩
      · exact getLast?_cons_eq.mpr (.inl (hlast hblank))
      · exact absurd (hdigits ' ' (by simp)) (by decide)

/-- When a literal that the lexer takes whole is read, it is read to its last quote. -/
theorem exists_content_of_unquote {x : List Char} {v : String} (hx : StringRest '"' x)
    (h : unquote (String.ofList ('"' :: x)) = .ok v) :
    ∃ content ps, x = content ++ ['"'] ∧ v = String.ofList (joinPieces ps) ∧
      ps.length ≤ content.length ∧ (content.length ≤ ps.length → IsVerbatim content) ∧
      (content.getLast? = some ' ' → ps.getLast? = some (.char ' ')) := by
  obtain ⟨ps, left, hread, hleft, hv⟩ := (unquote_eq_ok_iff _ _).mp h
  obtain ⟨content, hcontent, rfl⟩ := content_of_readPieces _ hread
  obtain ⟨ps', hread', hrest⟩ := hcontent.exists_readPieces_le _ left
  obtain ⟨rfl, -⟩ := Prod.mk.inj (Except.ok.inj (hread.symm.trans hread'))
  obtain rfl := eq_nil_of_skipSpace hleft hx.getLast?
  exact ⟨content, ps, rfl, hv, hrest⟩

/-- What a value in quotes stands in front of in a union: nothing, or a bar and another value. -/
def EndsValue (more : List Char) : Prop :=
  more = [] ∨ ∃ rest, more = " | \"".toList ++ rest

/-- A string that goes on behind the quote of a value ends with the next quote. -/
theorem eq_bar_of_stringRest {y z rest more : List Char}
    (hx : StringRest '"' (y ++ '"' :: z ++ ['"']))
    (hz : z ++ '"' :: rest = " | \"".toList ++ more) : z = " | ".toList := by
  obtain _ | ⟨a, _ | ⟨b, _ | ⟨d, z⟩⟩⟩ := z
  · simp at hz
  · simp at hz
  · simp at hz
  · obtain ⟨rfl, rfl, rfl, hquote⟩ :
        a = ' ' ∧ b = '|' ∧ d = ' ' ∧ z ++ '"' :: rest = '"' :: more := by
      simpa using hz
    cases z with
    | nil => rfl
    | cons e z =>
      -- the quote behind the bar has a blank in front of it
      obtain rfl := (List.cons.inj hquote).1
      have hlast := hx.getLast?_of_quote (by decide) (y := y ++ '"' :: " | ".toList)
        (z := z ++ ['"']) (by simp) (by simp)
      simp [List.getLast?_append, List.getLast?_cons] at hlast

/-- A value in quotes at the front of a union can be told from the first string in it only when it
is verbatim, and then this string ends with it. -/
theorem eq_of_stringRest {x rest more : List Char} {v : String} (hx : StringRest '"' x)
    (heq : x ++ rest = v.toList ++ '"' :: more) (hmore : EndsValue more)
    (h : unquote (String.ofList ('"' :: x)) = .ok v) :
    IsVerbatim v.toList ∧ x = v.toList ++ ['"'] ∧ rest = more := by
  obtain ⟨content, ps, rfl, rfl, hle, hverbatim, hblank⟩ := exists_content_of_unquote hx h
  rw [String.toList_ofList] at *
  have hlength := (length_joinPieces_le ps).trans hle
  have htext : content ++ '"' :: rest = joinPieces ps ++ '"' :: more := by
    rwa [List.append_assoc, List.singleton_append] at heq
  obtain ⟨z, rfl⟩ := List.prefix_of_prefix_length_le ⟨_, htext.symm⟩ (List.prefix_append _ _) hlength
  rw [List.append_assoc, List.append_cancel_left_eq] at htext
  cases z with
  | nil =>
    rw [List.append_nil] at *
    exact ⟨hverbatim (length_joinPieces_le ps), rfl, (List.cons.inj htext).2⟩
  | cons c z =>
    -- the string goes on behind the value, so that the value ends in a backslash; what the lexer
    -- takes then ends behind the bar, and what is read of it in a blank
    exfalso
    obtain ⟨rfl, htail⟩ := List.cons.inj htext
    have hslash : (joinPieces ps).getLast? = some '\\' :=
      hx.getLast?_of_quote (by decide) (z := z ++ ['"']) (by simp) (by simp)
    obtain rfl | ⟨m, rfl⟩ := hmore
    · simp at htail
    obtain rfl := eq_bar_of_stringRest hx htail
    have hpiece := hblank (by simp [List.getLast?_append, List.getLast?_cons])
    obtain ⟨front, rfl⟩ := List.getLast?_eq_some_iff.mp hpiece
    rw [joinPieces_concat, List.getLast?_concat] at hslash
    exact absurd hslash (by decide)

end SchemaTypings.Json
