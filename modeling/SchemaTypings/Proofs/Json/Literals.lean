import Mathlib.Data.List.TakeWhile
import SchemaTypings.Json.Reader

/-!
# String literals

`StringContent` and `IsStringLiteral` are the grammar of JSON strings. The reader of strings takes
exactly these (`StringContent.exists_readPieces`, `content_of_readPieces`), and `unquote_isOk_iff`
says the same of whole texts.
-/

namespace SchemaTypings.Json

/-- Whether a character is a hexadecimal digit. -/
def isHexDigit (c : Char) : Bool :=
  ('0' ≤ c && c ≤ '9') || ('a' ≤ c && c ≤ 'f') || ('A' ≤ c && c ≤ 'F')

/-- What may stand between the quotes of a string literal. -/
inductive StringContent : List Char → Prop
  | empty : StringContent []
  | char {c : Char} {cs : List Char} (hcontrol : 0x20 ≤ c.toNat) (hquote : c ≠ '"')
    (hslash : c ≠ '\\') (h : StringContent cs) : StringContent (c :: cs)
  | escape {c : Char} {cs : List Char} (hc : c ∈ ['"', '\\', '/', 'b', 'f', 'n', 'r', 't'])
    (h : StringContent cs) : StringContent ('\\' :: c :: cs)
  | unit {a b c d : Char} {cs : List Char} (hdigits : ∀ x ∈ [a, b, c, d], isHexDigit x)
    (h : StringContent cs) : StringContent ('\\' :: 'u' :: a :: b :: c :: d :: cs)

/-- A text that is a string literal. -/
def IsStringLiteral (cs : List Char) : Prop :=
  ∃ content, StringContent content ∧ cs = '"' :: content ++ ['"']

/-- The hexadecimal digits are the characters that have a value. -/
theorem hexValue?_isSome (c : Char) : (hexValue? c).isSome = isHexDigit c := by
  unfold hexValue? isHexDigit
  split
  · simp_all
  · split
    · simp_all
    · split <;> simp_all

/-- Four characters make a unit when each of them is a hexadecimal digit. -/
theorem unitValue?_isSome (a b c d : Char) :
    (unitValue? a b c d).isSome = [a, b, c, d].all isHexDigit := by
  simp only [← hexValue?_isSome, List.all_cons, List.all_nil, unitValue?]
  cases hexValue? a <;> cases hexValue? b <;> cases hexValue? c <;> cases hexValue? d <;> rfl

/-- The letters that mean something after a backslash. -/
theorem unescape?_isSome_iff (c : Char) :
    (unescape? c).isSome ↔ c ∈ ['"', '\\', '/', 'b', 'f', 'n', 'r', 't'] := by
  unfold unescape?
  split <;> simp_all

variable (opening : List Char)

theorem readPieces_quote (rest : List Char) :
    readPieces opening ('"' :: rest) = .ok ([], rest) := by
  rw [readPieces]

theorem readPieces_unit {a b c d : Char} {n : Nat} {rest : List Char}
    (h : unitValue? a b c d = some n) (hrest : rest ≠ []) :
    readPieces opening ('\\' :: 'u' :: a :: b :: c :: d :: rest) =
      (readPieces opening rest).map fun (pieces, left) => (.unit n :: pieces, left) := by
  rw [readPieces]
  simp [h, hrest]

theorem readPieces_escape {c meant : Char} {rest : List Char} (h : unescape? c = some meant) :
    readPieces opening ('\\' :: c :: rest) =
      (readPieces opening rest).map fun (pieces, left) => (.char meant :: pieces, left) := by
  have hu : c ≠ 'u' := by
    rintro rfl
    simp [unescape?] at h
  rw [readPieces]
  · simp [hu, h]
  · exact fun _ _ _ _ _ hc => absurd hc hu

theorem readPieces_char {c : Char} {rest : List Char} (hcontrol : 0x20 ≤ c.toNat)
    (hquote : c ≠ '"') (hslash : c ≠ '\\') :
    readPieces opening (c :: rest) =
      (readPieces opening rest).map fun (pieces, left) => (.char c :: pieces, left) := by
  rw [readPieces]
  · simp [Nat.not_lt.mpr hcontrol]
  · exact hquote
  · exact fun h => absurd h hslash
  · exact fun _ _ _ _ _ h => absurd h hslash
  · exact fun _ _ h => absurd h hslash

/-- The content of a string literal is taken up to the quote behind it. -/
theorem StringContent.exists_readPieces {content : List Char} (h : StringContent content)
    (left : List Char) : ∃ ps, readPieces opening (content ++ '"' :: left) = .ok (ps, left) := by
  induction h with
  | empty => exact ⟨[], readPieces_quote opening left⟩
  | @char c cs hcontrol hquote hslash _ ih =>
    obtain ⟨ps, hps⟩ := ih
    exact ⟨.char c :: ps, by simp [readPieces_char opening hcontrol hquote hslash, hps, Except.map]⟩
  | @escape c cs hc _ ih =>
    obtain ⟨ps, hps⟩ := ih
    obtain ⟨meant, hmeant⟩ := Option.isSome_iff_exists.mp ((unescape?_isSome_iff c).mpr hc)
    exact ⟨.char meant :: ps, by simp [readPieces_escape opening hmeant, hps, Except.map]⟩
  | @unit a b c d cs hdigits _ ih =>
    obtain ⟨ps, hps⟩ := ih
    have hsome : (unitValue? a b c d).isSome := by
      rw [unitValue?_isSome]
      simpa using hdigits
    obtain ⟨n, hn⟩ := Option.isSome_iff_exists.mp hsome
    exact ⟨.unit n :: ps, by simp [readPieces_unit opening hn, hps, Except.map]⟩

/-- The pieces behind the first one are what the reader makes of the rest. -/
theorem exists_of_map_cons {p : Piece} {x : Reading (List Piece)} {ps : List Piece}
    {left : List Char}
    (h : (x.map fun (pieces, left) => (p :: pieces, left)) = .ok (ps, left)) :
    ∃ more, x = .ok (more, left) := by
  cases x with
  | error e => simp [Except.map] at h
  | ok r =>
    obtain ⟨more, left'⟩ := r
    simp only [Except.map, Except.ok.injEq, Prod.mk.injEq] at h
    exact ⟨more, by rw [h.2]⟩

/-- What the reader takes up to a quote is the content of a string literal. -/
theorem content_of_readPieces {cs left : List Char} {ps : List Piece}
    (h : readPieces opening cs = .ok (ps, left)) :
    ∃ content, StringContent content ∧ cs = content ++ '"' :: left := by
  induction cs using readPieces.induct generalizing ps with
  | case1 => simp [readPieces] at h
  | case2 rest =>
    simp only [readPieces_quote, Except.ok.injEq, Prod.mk.injEq] at h
    exact ⟨[], .empty, by simp [h.2]⟩
  -- a backslash at the end
  | case3 => simp [readPieces] at h
  -- the units: at the end of the text, with more behind it, and without a value
  | case4 a b c d rest n hn hrest => simp [readPieces, hn, hrest] at h
  | case5 a b c d rest n hn hrest ih =>
    rw [readPieces_unit opening hn (by simpa using hrest)] at h
    obtain ⟨more, hmore⟩ := exists_of_map_cons h
    obtain ⟨content, hcontent, rfl⟩ := ih hmore
    have hdigits : ∀ x ∈ [a, b, c, d], isHexDigit x := by
      have hsome := unitValue?_isSome a b c d
      rw [hn] at hsome
      simpa using hsome.symm
    exact ⟨'\\' :: 'u' :: a :: b :: c :: d :: content, .unit hdigits hcontent, rfl⟩
  | case6 a b c d rest hn => simp [readPieces, hn] at h
  -- the other escapes: a unit that is cut short, a letter with a meaning, and one without
  | case7 rest hrest =>
    rw [readPieces] at h
    · simp at h
    · exact hrest
  | case8 c rest _ hu meant hmeant ih =>
    rw [readPieces_escape opening hmeant] at h
    obtain ⟨more, hmore⟩ := exists_of_map_cons h
    obtain ⟨content, hcontent, rfl⟩ := ih hmore
    have hc := (unescape?_isSome_iff c).mp (by simp [hmeant])
    exact ⟨'\\' :: c :: content, .escape hc hcontent, rfl⟩
  | case9 c rest hfour hu hmeant =>
    rw [readPieces] at h
    · simp [hu, hmeant] at h
    · exact hfour
  -- a character that stands for itself, unless it is a control character
  | case10 c rest h1 h2 h3 h4 hcontrol =>
    rw [readPieces] at h
    · simp [hcontrol] at h
    · exact h1
    · exact h2
    · exact h3
    · exact h4
  | case11 c rest h1 h2 h3 h4 hcontrol ih =>
    have hslash : c ≠ '\\' := by
      rintro rfl
      cases rest with
      | nil => exact h2 rfl rfl
      | cons d rest => exact h4 d rest rfl rfl
    rw [readPieces_char opening (Nat.not_lt.mp hcontrol) h1 hslash] at h
    obtain ⟨more, hmore⟩ := exists_of_map_cons h
    obtain ⟨content, hcontent, rfl⟩ := ih hmore
    exact ⟨c :: content, .char (Nat.not_lt.mp hcontrol) h1 hslash hcontent, rfl⟩

/-! ## Whole texts -/

/-- The value of a string literal is its text, as it is shown. -/
theorem text?_textValue (ps : List Piece) :
    (textValue ps).text? = some (String.ofList (joinPieces ps)) := by
  unfold textValue
  split <;> rfl

/-- A text that begins with a quote is read as the string up to the next quote, with nothing but
space behind it. -/
theorem unquote_eq_ok_iff (rest : List Char) (s : String) :
    unquote (String.ofList ('"' :: rest)) = .ok s ↔
      ∃ ps left, readPieces ('"' :: rest) rest = .ok (ps, left) ∧ skipSpace left = [] ∧
        s = String.ofList (joinPieces ps) := by
  have hskip : skipSpace ('"' :: rest) = '"' :: rest := rfl
  rw [unquote, read, String.toList_ofList, readText, hskip, readValue]
  · cases readPieces ('"' :: rest) rest with
    | error e => simp [Except.map, Except.mapError, bind, Except.bind]
    | ok r =>
      obtain ⟨ps, left⟩ := r
      cases hleft : skipSpace left with
      | nil =>
        simp only [Except.map, Except.mapError, bind, Except.bind, hleft, pure, Except.pure,
          text?_textValue, Except.ok.injEq, Prod.mk.injEq]
        constructor
        · rintro rfl
          exact ⟨ps, left, ⟨rfl, rfl⟩, hleft, rfl⟩
        · rintro ⟨_, _, ⟨rfl, rfl⟩, _, rfl⟩
          rfl
      | cons c more =>
        simp [Except.map, Except.mapError, bind, Except.bind, hleft]
  · simp

/-- Nothing stands behind the quote that ends a literal when a quote is the last of the text. -/
theorem eq_nil_of_skipSpace {content left : List Char} (h : skipSpace left = [])
    (hlast : (content ++ '"' :: left).getLast? = some '"') : left = [] := by
  rw [List.getLast?_append, List.getLast?_cons] at hlast
  -- space behind the quote would be the last character
  cases hend : left.getLast? with
  | none => exact List.getLast?_eq_none_iff.mp hend
  | some c =>
    have hspace := List.dropWhile_eq_nil_iff.mp h c (List.mem_of_getLast? hend)
    obtain rfl : c = '"' := by simpa [hend] using hlast
    exact absurd hspace (by decide)

/-- A text between quotes can be read as a text exactly when it is a string literal. -/
theorem unquote_isOk_iff {rest : List Char} (h : rest.getLast? = some '"') :
    (∃ s, unquote (String.ofList ('"' :: rest)) = .ok s) ↔ IsStringLiteral ('"' :: rest) := by
  simp only [unquote_eq_ok_iff]
  constructor
  · rintro ⟨s, ps, left, hread, hleft, -⟩
    obtain ⟨content, hcontent, rfl⟩ := content_of_readPieces _ hread
    obtain rfl := eq_nil_of_skipSpace hleft h
    exact ⟨content, hcontent, rfl⟩
  · rintro ⟨content, hcontent, heq⟩
    obtain rfl := (List.cons.inj heq).2
    obtain ⟨ps, hps⟩ := hcontent.exists_readPieces ('"' :: content ++ ['"']) []
    exact ⟨_, ps, [], hps, rfl, rfl⟩

end SchemaTypings.Json
