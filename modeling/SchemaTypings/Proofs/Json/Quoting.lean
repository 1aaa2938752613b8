import SchemaTypings.Proofs.Json.Literals
import SchemaTypings.Proofs.Lexing.Pieces

/-!
# Quoted texts are read back

`Json.quote` writes a text as a string literal. The reader takes back the text that was written
(`unquote_quote`), and the lexer takes the literal as one string (`stringRest_quoteChars`).
-/

namespace SchemaTypings.Json

open Declaration (StringRest)

/-- A hexadecimal digit is written and read as the same number. -/
theorem hexValue?_digitChar {n : Nat} (h : n < 16) : hexValue? (Nat.digitChar n) = some n := by
  have hall : ∀ n : Fin 16, hexValue? (Nat.digitChar n) = some n.val := by decide
  exact hall ⟨n, h⟩

/-- Four digits write a number below the end of the first plane. -/
theorem unitValue?_hexDigits {n : Nat} (h : n < 0x10000) :
    ∃ a b c d, Text.hexDigits 4 n = [a, b, c, d] ∧ unitValue? a b c d = some n := by
  refine ⟨_, _, _, _, rfl, ?_⟩
  have hdigit := fun m : Nat => hexValue?_digitChar (Nat.mod_lt m (by decide : 0 < 16))
  simp only [unitValue?, hdigit, bind, Option.bind, pure]
  congr 1
  omega

/-- A unit that is no surrogate makes a character whatever follows it. -/
theorem joinPieces_unit {n : Nat} (h : n < 0xD800 ∨ 0xE000 ≤ n) (rest : List Piece) :
    joinPieces (.unit n :: rest) = Char.ofNat n :: joinPieces rest := by
  have hnot : ¬(0xD800 ≤ n ∧ n < 0xE000) := by omega
  cases rest with
  | nil => simp [joinPieces, hnot]
  | cons p rest =>
    cases p with
    | char c => simp [joinPieces, hnot]
    | unit low =>
      have hhigh : ¬(0xD800 ≤ n ∧ n < 0xDC00 ∧ 0xDC00 ≤ low ∧ low < 0xE000) := by omega
      simp [joinPieces, hnot, hhigh, and_assoc]

/-- The two units of a character beyond the first plane make that character. -/
theorem joinPieces_pair {n : Nat} (h : 0x10000 ≤ n) (h' : n < 0x110000) (rest : List Piece) :
    joinPieces (.unit (0xD800 + (n - 0x10000) / 0x400) ::
        .unit (0xDC00 + (n - 0x10000) % 0x400) :: rest) = Char.ofNat n :: joinPieces rest := by
  have hhigh : (n - 0x10000) / 0x400 < 0x400 := by omega
  have hlow : (n - 0x10000) % 0x400 < 0x400 := by omega
  have hsum : 0x10000 + (0xD800 + (n - 0x10000) / 0x400 - 0xD800) * 0x400 +
      (0xDC00 + (n - 0x10000) % 0x400 - 0xDC00) = n := by omega
  rw [joinPieces, if_pos (by simp; omega), hsum]

/-- The short escape of a character stands for that character. -/
theorem unescape?_of_shortEscape? {c letter : Char} (h : shortEscape? c = some letter) :
    unescape? letter = some c := by
  unfold shortEscape? at h
  split at h <;> first | contradiction | (obtain rfl := Option.some.inj h; rfl)

/-- A character without a short escape is neither a quote nor a backslash. -/
theorem ne_of_shortEscape? {c : Char} (h : shortEscape? c = none) :
    c ≠ '"' ∧ c ≠ '\\' ∧ c ≠ '\n' := by
  refine ⟨?_, ?_, ?_⟩ <;> rintro rfl <;> exact absurd h (by decide)

/-! ## Reading -/

variable (opening : List Char)

/-- The escape of a unit is read as that unit. -/
theorem readPieces_unitEscape {n : Nat} (h : n < 0x10000) {rest : List Char} (hrest : rest ≠ []) :
    readPieces opening (unitEscape n ++ rest) =
      (readPieces opening rest).map fun (pieces, left) => (.unit n :: pieces, left) := by
  obtain ⟨a, b, c, d, hdigits, hvalue⟩ := unitValue?_hexDigits h
  rw [unitEscape, hdigits]
  exact readPieces_unit opening hvalue hrest

/-- What is written for a character is read as pieces that make that character. -/
theorem readPieces_escapeChar (c : Char) {rest : List Char} (hrest : rest ≠ []) :
    ∃ ps, readPieces opening (escapeChar c ++ rest) =
        (readPieces opening rest).map (fun (pieces, left) => (ps ++ pieces, left)) ∧
      ∀ more, joinPieces (ps ++ more) = c :: joinPieces more := by
  unfold escapeChar
  split
  · -- a letter behind a backslash stands for the character
    next letter hletter =>
    exact ⟨[.char c], readPieces_escape opening (unescape?_of_shortEscape? hletter), fun _ => rfl⟩
  · next hshort =>
    obtain ⟨hquote, hslash, -⟩ := ne_of_shortEscape? hshort
    dsimp only
    split
    · -- the character stands for itself
      next hprintable =>
      have hcontrol : 0x20 ≤ c.toNat := by
        simp only [Bool.and_eq_true, decide_eq_true_eq] at hprintable
        exact hprintable.1
      exact ⟨[.char c], readPieces_char opening hcontrol hquote hslash, fun _ => rfl⟩
    · split
      · -- the code of the character fits in one unit, which is no half of a pair
        next hplane =>
        refine ⟨[.unit c.toNat], readPieces_unitEscape opening hplane hrest, fun more => ?_⟩
        have hvalid : c.toNat < 0xD800 ∨ 0xE000 ≤ c.toNat := by
          rcases c.valid with h | ⟨h, -⟩
          · exact .inl h
          · exact .inr h
        rw [List.singleton_append, joinPieces_unit hvalid, Char.ofNat_toNat]
      · -- the character takes a pair of units
        next hplane =>
        have hbound : c.toNat < 0x110000 := by
          rcases c.valid with h | ⟨-, h⟩
          · have : c.toNat < 0xD800 := h
            omega
          · exact h
        refine ⟨[.unit (0xD800 + (c.toNat - 0x10000) / 0x400),
          .unit (0xDC00 + (c.toNat - 0x10000) % 0x400)], ?_, fun more => ?_⟩
        · rw [List.append_assoc, readPieces_unitEscape opening (by omega) (by simp [unitEscape]),
            readPieces_unitEscape opening (by omega) hrest]
          cases readPieces opening rest <;> rfl
        · rw [List.cons_append, List.singleton_append, joinPieces_pair (by omega) hbound,
            Char.ofNat_toNat]

/-- What is written for a text is read as pieces that make that text. -/
theorem readPieces_flatMap_escapeChar (cs left : List Char) :
    ∃ ps, readPieces opening (cs.flatMap escapeChar ++ '"' :: left) = .ok (ps, left) ∧
      joinPieces ps = cs := by
  induction cs with
  | nil => exact ⟨[], readPieces_quote opening left, rfl⟩
  | cons c cs ih =>
    obtain ⟨ps, hps, hjoin⟩ := ih
    have hne : cs.flatMap escapeChar ++ '"' :: left ≠ [] := by simp
    obtain ⟨front, hfront, hmore⟩ := readPieces_escapeChar opening c hne
    refine ⟨front ++ ps, ?_, by rw [hmore, hjoin]⟩
    rw [List.flatMap_cons, List.append_assoc, hfront, hps]
    rfl

/-- A text in quotes is read back. -/
theorem unquote_quote (s : String) : unquote (quote s) = .ok s := by
  have hquote : quote s = String.ofList ('"' :: (s.toList.flatMap escapeChar ++ ['"'])) := rfl
  obtain ⟨ps, hps, hjoin⟩ := readPieces_flatMap_escapeChar
    ('"' :: (s.toList.flatMap escapeChar ++ ['"'])) s.toList []
  rw [hquote, unquote_eq_ok_iff]
  exact ⟨ps, [], hps, rfl, by rw [hjoin, String.ofList_toList]⟩

/-! ## Lexing -/

/-- No digit ends a string or a line. -/
theorem digitChar_ne {n : Nat} (h : n < 16) :
    Nat.digitChar n ≠ '\\' ∧ Nat.digitChar n ≠ '"' ∧ Nat.digitChar n ≠ '\n' := by
  have hall : ∀ n : Fin 16, Nat.digitChar n ≠ '\\' ∧ Nat.digitChar n ≠ '"' ∧
      Nat.digitChar n ≠ '\n' := by decide
  exact hall ⟨n, h⟩

/-- The escape of a unit ends no string. -/
theorem stringRest_unitEscape (n : Nat) {y : List Char} (h : StringRest '"' y) :
    StringRest '"' (unitEscape n ++ y) := by
  have hdigit : ∀ (m : Nat) {y : List Char}, StringRest '"' y →
      StringRest '"' (Nat.digitChar (m % 16) :: y) := by
    intro m y hy
    obtain ⟨hslash, hquote, hline⟩ := digitChar_ne (Nat.mod_lt m (by decide : 0 < 16))
    exact .char hslash hquote (fun h => absurd h hline) hy
  exact .escape (by decide) (hdigit _ (hdigit _ (hdigit _ (hdigit _ h))))

/-- What is written for a character ends no string. -/
theorem stringRest_escapeChar (c : Char) {y : List Char} (h : StringRest '"' y) :
    StringRest '"' (escapeChar c ++ y) := by
  unfold escapeChar
  split
  · next letter hletter =>
    refine .escape ?_ h
    rintro rfl
    exact absurd (unescape?_of_shortEscape? hletter) (by simp [unescape?])
  · next hshort =>
    obtain ⟨hquote, hslash, hline⟩ := ne_of_shortEscape? hshort
    dsimp only
    split
    · exact .char hslash hquote (fun h => absurd h hline) h
    · split
      · exact stringRest_unitEscape _ h
      · rw [List.append_assoc]
        exact stringRest_unitEscape _ (stringRest_unitEscape _ h)

/-- A text in quotes is one string for the lexer. -/
theorem stringRest_quoteChars (cs : List Char) :
    StringRest '"' (cs.flatMap escapeChar ++ ['"']) := by
  induction cs with
  | nil => exact .close
  | cons c cs ih =>
    rw [List.flatMap_cons, List.append_assoc]
    exact stringRest_escapeChar c ih

end SchemaTypings.Json
