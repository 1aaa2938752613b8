import SchemaTypings.Member
import SchemaTypings.Proofs.Naming
import SchemaTypings.Proofs.Writing.Comments

/-!
# Names that are identifiers

The name of a sub-document begins with that of its owner and goes on with keys that have a capital.
When the owner's name is a word and the keys are made of its characters, the name is an identifier
(`isIdentifier_subDocumentName`): it has a character that is no small letter. So is the name of a
reference to a model or, by a dotted path, to a sub-document (`isIdentifier_referenceName`).
-/

namespace SchemaTypings

open Declaration

/-- A key that holds something, and only what an identifier may. -/
def IsKey (key : String) : Prop :=
  key ≠ "" ∧ ∀ c ∈ key.toList, isIdentifierPart c

instance (key : String) : Decidable (IsKey key) := inferInstanceAs (Decidable (_ ∧ _))

/-- A small letter. -/
def isSmall (c : Char) : Bool :=
  'a' ≤ c && c ≤ 'z'

theorem IsKey.not_mem_dot {key : String} (h : IsKey key) : '.' ∉ key.toList := fun hdot =>
  absurd (h.2 '.' hdot) (by decide)

theorem IsKey.isPlainName {key : String} (h : IsKey key) : IsPlainName key := by
  intro word _ hkey
  exact absurd (h.2 '\n' (by simp [hkey])) (by decide)

/-- The capitals of characters of words are such characters, and no small letters. -/
theorem upperASCII_of_isIdentifierPart :
    (List.range 128).all (fun n => !isIdentifierPart (Char.ofNat n) ||
      (isIdentifierPart (Char.ofNat n).toUpper && !isSmall (Char.ofNat n).toUpper &&
        (!isIdentifierStart (Char.ofNat n) || isIdentifierStart (Char.ofNat n).toUpper))) = true := by
  decide

theorem upperChar_of_isIdentifierPart {c : Char} (h : isIdentifierPart c) :
    ∃ d, Text.upperChar c = [d] ∧ isIdentifierPart d ∧ isSmall d = false ∧
      (isIdentifierStart c → isIdentifierStart d) := by
  have hlt := toNat_lt_of_isIdentifierPart h
  have hall := List.all_eq_true.mp upperASCII_of_isIdentifierPart c.toNat (List.mem_range.mpr hlt)
  simp only [Char.ofNat_toNat, h, Bool.not_true, Bool.false_or, Bool.and_eq_true, Bool.not_eq_true',
    Bool.or_eq_true] at hall
  refine ⟨c.toUpper, by simp [Text.upperChar, hlt], hall.1.1, hall.1.2, fun hstart => ?_⟩
  simpa [hstart] using hall.2

/-- A key with a capital begins with no small letter. -/
theorem IsKey.capitalize {key : String} (h : IsKey key) :
    ∃ d rest, (Text.capitalize key).toList = d :: rest ∧ isSmall d = false ∧
      (IsWord key.toList → isIdentifierStart d) ∧
      ∀ c ∈ (Text.capitalize key).toList, isIdentifierPart c := by
  obtain ⟨hne, hall⟩ := h
  cases hkey : key.toList with
  | nil => exact absurd (String.toList_eq_nil_iff.mp hkey) hne
  | cons c rest =>
    obtain ⟨d, hd, hpart, hsmall, hstart⟩ := upperChar_of_isIdentifierPart (hall c (by simp [hkey]))
    have hchars : (Text.capitalize key).toList = d :: rest := by
      simp [Text.capitalize, hkey, Text.capitalizeChars, hd]
    refine ⟨d, rest, hchars, hsmall, ?_, ?_⟩
    · rintro ⟨⟨c', hc', hword⟩, -⟩
      obtain rfl : c = c' := by simpa using hc'
      exact hstart hword
    · rw [hchars]
      intro e he
      rcases List.mem_cons.mp he with rfl | he
      · exact hpart
      · exact hall e (by simp [hkey, he])

/-- The plural goes without any character but a small letter, and without the first. -/
theorem dropPlural_eq (s : String) :
    dropPlural s = s ∨ s.toList = (dropPlural s).toList ++ ['s'] := by
  unfold dropPlural
  split
  · next rest hrest =>
    refine .inr ?_
    have hreverse := congrArg List.reverse hrest
    simpa using hreverse
  · exact .inl rfl

/-- A word with a character that is no small letter is an identifier without its plural. -/
theorem isIdentifier_dropPlural {s : String} (h : IsWord s.toList) {c : Char} (hc : c ∈ s.toList)
    (hsmall : isSmall c = false) : IsIdentifier (dropPlural s).toList := by
  rcases dropPlural_eq s with heq | heq
  · rw [heq]
    exact h.isIdentifier hc hsmall
  · have hmem : c ∈ (dropPlural s).toList := by
      rw [heq] at hc
      rcases List.mem_append.mp hc with hc | hc
      · exact hc
      · rw [List.mem_singleton.mp hc] at hsmall
        exact absurd hsmall (by decide)
    refine IsWord.isIdentifier ⟨?_, fun d hd => h.2 d (by simp [heq, hd])⟩ hmem hsmall
    obtain ⟨first, hfirst, hstart⟩ := h.1
    refine ⟨first, ?_, hstart⟩
    obtain ⟨d, rest, hchars⟩ := List.exists_cons_of_ne_nil (List.ne_nil_of_mem hmem)
    rw [heq, hchars] at hfirst
    rwa [hchars]

/-- The capitals of keys are characters of words. -/
theorem isIdentifierPart_join_capitalize {segments : List String}
    (h : ∀ segment ∈ segments, IsKey segment) :
    ∀ c ∈ (String.join (segments.map Text.capitalize)).toList, isIdentifierPart c := by
  induction segments with
  | nil => simp
  | cons first rest ih =>
    intro c hc
    rw [List.map_cons, String.join_cons, String.toList_append, List.mem_append] at hc
    obtain ⟨d, others, -, -, -, hall⟩ := (h first (by simp)).capitalize
    exact hc.elim (hall c) (ih (fun s hs => h s (by simp [hs])) c)

/-- The capitals of some keys are characters of words, and one at least is no small letter. -/
theorem join_capitalize {segments : List String} (hne : segments ≠ [])
    (h : ∀ segment ∈ segments, IsKey segment) :
    (∀ c ∈ (String.join (segments.map Text.capitalize)).toList, isIdentifierPart c) ∧
      ∃ c ∈ (String.join (segments.map Text.capitalize)).toList, isSmall c = false := by
  refine ⟨isIdentifierPart_join_capitalize h, ?_⟩
  obtain ⟨first, rest, rfl⟩ := List.exists_cons_of_ne_nil hne
  obtain ⟨d, others, hchars, hsmall, -⟩ := (h first (by simp)).capitalize
  exact ⟨d, by simp [String.join_cons, hchars], hsmall⟩

/-- The name of a sub-document is an identifier when the name of its owner is a word and its path is
one of keys. -/
theorem isIdentifier_subDocumentName {path owner : String} (howner : IsWord owner.toList)
    (hpath : ∀ segment ∈ pathSegments path, IsKey segment) :
    IsIdentifier (subDocumentName path owner).toList := by
  obtain ⟨hparts, c, hc, hsmall⟩ := join_capitalize (pathSegments_ne_nil path) hpath
  have hword : IsWord (owner ++ String.join ((pathSegments path).map Text.capitalize)).toList := by
    obtain ⟨⟨first, hfirst, hstart⟩, hall⟩ := howner
    rw [String.toList_append]
    refine ⟨⟨first, by rw [List.head?_append, hfirst]; rfl, hstart⟩, fun d hd => ?_⟩
    exact (List.mem_append.mp hd).elim (hall d) (hparts d)
  exact isIdentifier_dropPlural hword (String.toList_append ▸ List.mem_append_right _ hc) hsmall

/-! ## References -/

/-- What a reference may be: an identifier, or words with dots between them. -/
def IsReferable (ref : String) : Prop :=
  IsIdentifier ref.toList ∨
    '.' ∈ ref.toList ∧ ∀ segment ∈ pathSegments ref, IsWord segment.toList

theorem Declaration.IsWord.isKey {word : String} (h : IsWord word.toList) : IsKey word := by
  refine ⟨?_, h.2⟩
  rintro rfl
  obtain ⟨⟨c, hc, -⟩, -⟩ := h
  exact nomatch hc

/-- The characters of a path are dots and those of its segments. -/
theorem eq_dot_or_mem_segment {path : String} {c : Char} (hc : c ∈ path.toList) :
    c = '.' ∨ ∃ segment ∈ pathSegments path, c ∈ segment.toList := by
  rw [← Text.intercalate_cutChars '.' path.toList] at hc
  refine (Text.eq_or_mem_of_mem_intercalate hc).imp_right ?_
  rintro ⟨piece, hpiece, hcp⟩
  exact ⟨String.ofList piece, List.mem_map_of_mem hpiece, by simpa using hcp⟩

/-- Paths of keys stand in comments as they are. -/
theorem isCommentLine_path {path : String} (h : ∀ segment ∈ pathSegments path, IsKey segment) :
    IsCommentLine path := by
  intro c hc
  rcases eq_dot_or_mem_segment hc with rfl | ⟨segment, hsegment, hmem⟩
  · decide
  · exact isCommentLine_of_isIdentifierPart (h segment hsegment).2 c hmem

/-- The name that a reference gives is an identifier. -/
theorem isIdentifier_referenceName {ref : String} (h : IsReferable ref) :
    IsIdentifier (referenceName ref).toList := by
  have hquotes : (∀ c ∈ ref.toList, c ≠ '\'') →
      String.ofList (ref.toList.filter (· != '\'')) = ref := by
    intro h
    rw [List.filter_eq_self.mpr (by simpa using h), String.ofList_toList]
  unfold referenceName
  rcases h with h | ⟨hdot, hwords⟩
  · -- an identifier is taken as it is
    have hname := hquotes fun c hc heq => absurd (h.1.2 c hc) (by simp [heq]; decide)
    have hplain : ref.contains '.' = false := by
      have hnot : '.' ∉ ref.toList := fun hdot => absurd (h.1.2 '.' hdot) (by decide)
      simpa using hnot
    simp only [hname, hplain, Bool.false_eq_true, if_false]
    exact h
  · -- words with dots between them become one word
    have hname : String.ofList (ref.toList.filter (· != '\'')) = ref := by
      refine hquotes fun c hc heq => ?_
      subst heq
      rcases eq_dot_or_mem_segment hc with heq | ⟨segment, hsegment, hmem⟩
      · exact absurd heq (by decide)
      · exact absurd ((hwords segment hsegment).2 _ hmem) (by decide)
    have hplain : ref.contains '.' = true := by simpa using hdot
    simp only [hname, hplain, if_true]
    have hkeys := fun segment hsegment => IsWord.isKey (hwords segment hsegment)
    obtain ⟨hparts, c, hc, hsmall⟩ := join_capitalize (pathSegments_ne_nil ref) hkeys
    obtain ⟨first, rest, hsegments⟩ := List.exists_cons_of_ne_nil (pathSegments_ne_nil ref)
    have hfirst := hwords first (by simp [hsegments])
    obtain ⟨d, others, hchars, -, hstart, -⟩ := (IsWord.isKey hfirst).capitalize
    have hword : IsWord ("" ++ String.join ((pathSegments ref).map Text.capitalize)).toList := by
      rw [String.empty_append]
      refine ⟨⟨d, ?_, hstart hfirst⟩, hparts⟩
      rw [hsegments, List.map_cons, String.join_cons, String.toList_append, hchars]
      rfl
    exact isIdentifier_dropPlural hword (by rwa [String.empty_append]) hsmall

end SchemaTypings
