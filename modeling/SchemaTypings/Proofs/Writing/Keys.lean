import SchemaTypings.Proofs.Writing.Lines

/-!
# The names of properties

A key is written as one token, a word or a string, which is read as a name (`isName_propertyKey`).
The name is the key again unless the key is an identifier with a line feed behind it: such a key is
written as it stands, and the line feed is none of the token (`tokens_propertyKey`).
-/

namespace SchemaTypings.Declaration

variable {x : List Char}

/-- The kinds of the tokens that keys are written as. -/
def keyKinds : List Kind :=
  [.identifier, .string] ++ wordKinds

/-- A token that a key is written as may name a property. -/
theorem keyKinds_subset : keyKinds ⊆ nameKinds := by
  decide

/-- A text that stands for a name. -/
def IsName (x : List Char) (name : String) : Prop :=
  Spells x fun _ ts => ∃ l : Leaf keyKinds, ts = [l.token] ∧ l.token.name = name ∧
    l.token.IsReadable

/-- A word is the name of a property, whatever it says. -/
theorem IsWord.isName (h : IsWord x) : IsName x (String.ofList x) := by
  refine h.spells.imp fun offset ts => ?_
  rintro ⟨l, rfl, htext, -⟩
  have hkind : l.token.kind ∈ keyKinds := by
    have hword := ofWord_mem (String.ofList x)
    rw [← l.kind_eq] at hword
    revert hword
    generalize l.token.kind = k
    cases k <;> decide
  have hstring : l.token.kind ≠ .string := by
    rw [l.kind_eq]
    intro heq
    have hword := ofWord_mem (String.ofList x)
    rw [heq] at hword
    exact absurd hword (by decide)
  have hunquote : unquote (String.ofList x) = .ok (String.ofList x) := by
    obtain ⟨⟨c, hc, hstart⟩, -⟩ := h
    obtain ⟨y, rfl⟩ := List.head?_eq_some_iff.mp hc
    have hdouble : c ≠ '"' := ne_of_test hstart (by decide)
    have hsingle : c ≠ '\'' := ne_of_test hstart (by decide)
    simp [unquote, hdouble, hsingle]
  refine ⟨⟨l.token, hkind⟩, rfl, ?_, fun h => absurd h hstring⟩
  rw [Token.name, htext, hunquote]

/-- A quoted text is one token, whose name is that text. -/
theorem spells_quote (s : String) :
    Spells (Json.quote s).toList fun _ ts =>
      ∃ l : Leaf [.string], ts = [l.token] ∧ l.token.name = s ∧ l.token.IsReadable := by
  have hchars : (Json.quote s).toList = '"' :: (s.toList.flatMap Json.escapeChar ++ ['"']) := by
    simp [Json.quote, Json.quoteChars]
  have hrest := Json.stringRest_quoteChars s.toList
  rw [hchars]
  refine (spells_string hrest).imp fun offset ts => ?_
  rintro ⟨l, rfl, htext, -⟩
  have hquote : l.token.text = Json.quote s := by
    rw [htext, ← hchars, String.ofList_toList]
  have hunquote : unquote l.token.text = .ok s := by
    rw [unquote, hquote, hchars]
    exact Json.unquote_quote s
  refine ⟨l, rfl, by simp [Token.name, hunquote], fun _ _ => ?_⟩
  have hliteral := (Json.unquote_isOk_iff hrest.getLast?).mp ⟨s, by
    rw [← hchars, String.ofList_toList]
    exact Json.unquote_quote s⟩
  rw [hquote, hchars]
  exact hliteral

/-- A quoted text is the name of a property. -/
theorem isName_quote (s : String) : IsName (Json.quote s).toList s := by
  refine (spells_quote s).imp fun _ ts => ?_
  rintro ⟨l, rfl, hname, hreadable⟩
  have hkind : l.token.kind ∈ keyKinds := by
    rw [l.kind_eq]
    decide
  exact ⟨⟨l.token, hkind⟩, rfl, hname, hreadable⟩

/-! ## Keys -/

/-- What the written key of a property is read as: an identifier loses a line feed behind it. -/
def keyName (key : String) : String :=
  if isIdentifierLine key.toList then String.ofList (key.toList.takeWhile isIdentifierPart) else key

/-- A name that is not an identifier with a line feed behind it. -/
def IsPlainName (name : String) : Prop :=
  ∀ word, IsWord word → name.toList ≠ word ++ ['\n']

/-- A plain name is read back. -/
theorem keyName_eq {key : String} (h : IsPlainName key) : keyName key = key := by
  unfold keyName
  split
  · next hline =>
    obtain ⟨hword, heq | heq⟩ := exists_of_isIdentifierLine hline
    · rw [← heq, String.ofList_toList]
    · exact absurd heq (h _ hword)
  · rfl

/-- A name with a line feed behind it is read as the name. -/
theorem IsWord.keyName_line (h : IsWord x) : keyName (String.ofList (x ++ ['\n'])) =
    String.ofList x := by
  have hline : isIdentifierLine (x ++ ['\n']) = true := by
    obtain ⟨⟨c, hc, hstart⟩, hall⟩ := h
    obtain ⟨y, rfl⟩ := List.head?_eq_some_iff.mp hc
    have hdrop : (y ++ ['\n']).dropWhile isIdentifierPart = ['\n'] := by
      rw [List.dropWhile_append_of_pos fun d hd => hall d (by simp [hd])]
      decide
    simp [isIdentifierLine, hstart, hdrop]
  have hfront : (x ++ ['\n']).takeWhile isIdentifierPart = x :=
    takeWhile_append_of_stop h.2 (by decide)
  rw [keyName, String.toList_ofList, if_pos hline, hfront]

/-- Only plain names are read back. -/
theorem keyName_eq_iff (key : String) : keyName key = key ↔ IsPlainName key := by
  refine ⟨fun h word hword hkey => ?_, keyName_eq⟩
  have hname := hword.keyName_line
  rw [← hkey, String.ofList_toList, h] at hname
  rw [hname, String.toList_ofList] at hkey
  simp at hkey

/-- A key is written as a name. -/
theorem isName_propertyKey (key : String) : IsName (propertyKey key).toList (keyName key) := by
  unfold propertyKey keyName
  split
  · next hline =>
    have hend : Spells ['\n'] Silent := spells_blanks (by decide)
    obtain ⟨hword, heq⟩ := exists_of_isIdentifierLine hline
    generalize key.toList.takeWhile isIdentifierPart = word at hword heq ⊢
    obtain heq | heq := heq
    · rw [heq]
      exact hword.isName
    · rw [heq]
      exact hword.isName.append_silent hend (parted_cons (by decide) _ [])
  · exact isName_quote key

/-- A key is written as one token, an identifier, a reserved word or a string, which is read as a
name. The name is the key if and only if the key is plain; of any other the line feed is lost. -/
theorem tokens_propertyKey (key : String) :
    ∃ t, tokens (propertyKey key) = [t] ∧ t.kind ∈ keyKinds ∧ unquote t.text = .ok (keyName key) ∧
      (unquote t.text = .ok key ↔ IsPlainName key) := by
  obtain ⟨l, htoken, hname, hreadable⟩ := (isName_propertyKey key).tokens
  have hmem : l.token ∈ tokens (propertyKey key) := by simp [htoken]
  obtain ⟨s, hs⟩ :=
    (unquote_isOk_of_mem_tokens hmem (keyKinds_subset l.kind_mem)).mpr hreadable
  obtain rfl : s = keyName key := by
    rw [← hname, Token.name, hs]
  refine ⟨l.token, htoken, l.kind_mem, hs, ?_⟩
  rw [hs, Except.ok.injEq, keyName_eq_iff]

/-- An identifier with a line feed behind it is not read back: the line feed is lost. -/
theorem propertyKey_loses_line :
    ¬ ∃ t, tokens (propertyKey "abc\n") = [t] ∧ t.kind ∈ keyKinds ∧
      unquote t.text = .ok "abc\n" := by
  have htokens : tokens (propertyKey "abc\n") = [⟨.identifier, "abc", 1, 0⟩] := by
    decide
  rintro ⟨t, ht, -, hname⟩
  rw [htokens] at ht
  obtain rfl := (List.cons.inj ht).1
  have hread : unquote "abc" = .ok "abc" := rfl
  rw [hread] at hname
  exact absurd (Except.ok.inj hname) (by decide)

end SchemaTypings.Declaration
