import Mathlib.Algebra.Group.Nat.Defs
import Mathlib.Data.Nat.Basic
import SchemaTypings.Text.Quoted

/-!
# Quoted texts tell what was quoted

No two texts are quoted alike, and a quoted text shows where it ends (`quoted_append_inj`): the
quote in use stands inside it behind a backslash only, and the letter behind a backslash tells how
many characters belong to it.
-/

namespace SchemaTypings.Text

@[simp] theorem length_hexDigits (width n : Nat) : (hexDigits width n).length = width := by
  induction width generalizing n with
  | zero => rfl
  | succ width ih => simp [hexDigits, ih]

/-- The digits tell a number that they are enough for. -/
theorem hexDigits_injective {width m n : Nat} (hm : m < 16 ^ width) (hn : n < 16 ^ width)
    (h : hexDigits width m = hexDigits width n) : m = n := by
  induction width generalizing m n with
  | zero => omega
  | succ width ih =>
    have hdigit : ∀ a b : Fin 16, Nat.digitChar a = Nat.digitChar b → a = b := by decide
    obtain ⟨hrest, hlast⟩ := List.append_inj' h rfl
    have hquotient : m / 16 = n / 16 := by
      rw [Nat.pow_succ] at hm hn
      exact ih (Nat.div_lt_of_lt_mul (by omega)) (Nat.div_lt_of_lt_mul (by omega)) hrest
    have hremainder : m % 16 = n % 16 :=
      congrArg Fin.val (hdigit ⟨m % 16, Nat.mod_lt m (by decide)⟩ ⟨n % 16, Nat.mod_lt n (by decide)⟩
        (List.cons.inj hlast).1)
    omega

/-! ## One character -/

/-- What a letter behind a backslash stands for: a character, or the digits of one, so many. -/
def escapeOf : Char → Char ⊕ Nat
  | 't' => .inl '\t'
  | 'n' => .inl '\n'
  | 'r' => .inl '\r'
  | 'x' => .inr 2
  | 'u' => .inr 4
  | 'U' => .inr 8
  | c => .inl c

/-- How a character may be written inside a quote. -/
inductive Writes (quote c : Char) : List Char → Prop
  | plain : c ≠ quote → c ≠ '\\' → Writes quote c [c]
  | letter {letter : Char} : escapeOf letter = .inl c → Writes quote c ['\\', letter]
  | code {letter : Char} {width : Nat} : escapeOf letter = .inr width → c.toNat < 16 ^ width →
    Writes quote c ('\\' :: letter :: hexDigits width c.toNat)

/-- The two quotes. -/
def IsTextQuote (c : Char) : Prop :=
  c = '\'' ∨ c = '"'

theorem isTextQuote_quoteFor (cs : List Char) : IsTextQuote (quoteFor cs) := by
  unfold quoteFor
  split
  · exact .inr rfl
  · exact .inl rfl

theorem writes_quotedChar {quote : Char} (hquote : IsTextQuote quote) (c : Char) :
    Writes quote c (quotedChar quote c) := by
  have hmax : c.toNat < 16 ^ 8 := by
    have hvalid := c.valid
    simp only [UInt32.isValidChar, Nat.isValidChar] at hvalid
    change c.val.toNat < 16 ^ 8
    omega
  unfold quotedChar
  split
  · -- the quote and the backslash are written behind a backslash
    rename_i hescaped
    obtain rfl | rfl : c = quote ∨ c = '\\' := by simpa using hescaped
    · obtain rfl | rfl := hquote <;> exact .letter rfl
    · exact .letter rfl
  · rename_i hplain
    obtain ⟨hne, hslash⟩ : c ≠ quote ∧ c ≠ '\\' := by simpa using hplain
    split
    · rename_i htab
      exact .letter (htab ▸ rfl)
    split
    · rename_i hline
      exact .letter (hline ▸ rfl)
    split
    · rename_i hreturn
      exact .letter (hreturn ▸ rfl)
    split
    · exact .plain hne hslash
    split
    · rename_i hbyte
      exact .code rfl hbyte
    split
    · rename_i hunit
      exact .code rfl hunit
    · exact .code rfl hmax

/-- A character is told by how it is written, and so is what follows it. -/
theorem Writes.append_inj {quote c d : Char} {u v x y : List Char} (hc : Writes quote c u)
    (hd : Writes quote d v) (h : u ++ x = v ++ y) : c = d ∧ x = y := by
  cases hc with
  | plain _ hslash =>
    cases hd with
    | plain => exact List.cons.inj h
    | letter | code => exact absurd (List.cons.inj h).1 hslash
  | letter hletter =>
    cases hd with
    | plain _ hslash => exact absurd (List.cons.inj h).1.symm hslash
    | letter hletter' =>
      obtain ⟨rfl, hrest⟩ := List.cons.inj (List.cons.inj h).2
      exact ⟨Sum.inl.inj (hletter.symm.trans hletter'), hrest⟩
    | code hletter' =>
      obtain ⟨rfl, -⟩ := List.cons.inj (List.cons.inj h).2
      exact nomatch hletter.symm.trans hletter'
  | code hletter hlt =>
    cases hd with
    | plain _ hslash => exact absurd (List.cons.inj h).1.symm hslash
    | letter hletter' =>
      obtain ⟨rfl, -⟩ := List.cons.inj (List.cons.inj h).2
      exact nomatch hletter.symm.trans hletter'
    | code hletter' hlt' =>
      obtain ⟨rfl, hrest⟩ := List.cons.inj (List.cons.inj h).2
      obtain rfl := Sum.inr.inj (hletter.symm.trans hletter')
      obtain ⟨hdigits, hrest⟩ := List.append_inj hrest (by simp)
      exact ⟨Char.toNat_inj.mp (hexDigits_injective hlt hlt' hdigits), hrest⟩

/-- No character is written with the quote in front. -/
theorem Writes.head_ne {quote c : Char} (hquote : IsTextQuote quote) {u : List Char}
    (h : Writes quote c u) : ∃ d rest, u = d :: rest ∧ d ≠ quote := by
  have hslash : '\\' ≠ quote := by obtain rfl | rfl := hquote <;> decide
  cases h with
  | plain hne _ => exact ⟨c, [], rfl, hne⟩
  | letter | code => exact ⟨'\\', _, rfl, hslash⟩

/-! ## Texts -/

/-- Up to the closing quote the characters are told, and so is what follows it. -/
theorem quotedBody_inj {quote : Char} (hquote : IsTextQuote quote) {cs ds x y : List Char}
    (h : cs.flatMap (quotedChar quote) ++ quote :: x = ds.flatMap (quotedChar quote) ++ quote :: y) :
    cs = ds ∧ x = y := by
  have hends : ∀ (c : Char) (u v w : List Char), quotedChar quote c ++ u ++ v ≠ quote :: w := by
    intro c u v w heq
    obtain ⟨d, rest, hwritten, hne⟩ := (writes_quotedChar hquote c).head_ne hquote
    rw [hwritten] at heq
    exact hne (List.cons.inj heq).1
  induction cs generalizing ds with
  | nil =>
    cases ds with
    | nil => exact ⟨rfl, (List.cons.inj h).2⟩
    | cons d ds => exact absurd h.symm (hends d _ _ _)
  | cons c cs ih =>
    cases ds with
    | nil => exact absurd h (hends c _ _ _)
    | cons d ds =>
      simp only [List.flatMap_cons, List.append_assoc] at h
      obtain ⟨rfl, hrest⟩ :=
        (writes_quotedChar hquote c).append_inj (writes_quotedChar hquote d) h
      obtain ⟨rfl, hxy⟩ := ih hrest
      exact ⟨rfl, hxy⟩

/-- A quoted text in front of others is told by the whole, and so is what follows it. -/
theorem quoted_append_inj {s t x y : String} (h : quoted s ++ x = quoted t ++ y) : s = t ∧ x = y := by
  have hchars := congrArg String.toList h
  simp only [quoted, String.toList_append, String.toList_ofList, List.cons_append,
    List.append_assoc, List.nil_append] at hchars
  obtain ⟨hquote, hbody⟩ := List.cons.inj hchars
  rw [← hquote] at hbody
  obtain ⟨hs, hx⟩ := quotedBody_inj (isTextQuote_quoteFor s.toList) hbody
  exact ⟨String.toList_injective hs, String.toList_injective hx⟩

/-- A quoted text begins with its quote. -/
theorem exists_head_quoted (s : String) : ∃ c ∈ (quoted s).toList.head?, IsTextQuote c := by
  refine ⟨quoteFor s.toList, ?_, isTextQuote_quoteFor s.toList⟩
  simp [quoted]

end SchemaTypings.Text
