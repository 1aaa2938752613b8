import SchemaTypings.Proofs.Outline
import SchemaTypings.Proofs.Writing.Keys

/-!
# Texts that are members

`IsMembers` says of a text that its tokens are those of members wherever it stands, and what the
properties among them are: their names, their marks and the texts of their types. `IsObject` says
the same of an object type.
-/

namespace SchemaTypings.Declaration

variable {x y : List Char}

/-! ## Properties of a text -/

/-- The text of the type of a property in a file. -/
def typeIn (cs : List Char) (p : Property) : String :=
  String.ofList (slice cs p.typeStart p.typeEnd)

variable {α : Type}

/-- What is said of the types in a text that stands at an offset, whatever stands around it. -/
def ReadAs (say : (Property → String) → α) (offset : Nat) (x : List Char) (said : α) : Prop :=
  ∀ before after, before.length = offset → say (typeIn (before ++ x ++ after)) = said

/-- What is said of a part of a text is said of the text. -/
theorem ReadAs.inside {say : (Property → String) → α} {said : α} {offset : Nat} {a b : List Char}
    (h : ReadAs say (offset + a.length) x said) : ReadAs say offset (a ++ x ++ b) said := by
  intro before after hbefore
  have hinside := h (before ++ a) (b ++ after) (by rw [List.length_append, hbefore])
  simpa only [List.append_assoc] using hinside

/-- What is said of a part of a text that begins at an offset is said of the text. -/
theorem ReadAs.of_part {say : (Property → String) → α} {said : α} {offset offset' : Nat}
    {whole a b : List Char} (h : ReadAs say offset' x said) (hwhole : whole = a ++ x ++ b)
    (hoffset : offset' = offset + a.length) : ReadAs say offset whole said := by
  subst hwhole hoffset
  exact h.inside

theorem ReadAs.left {say : (Property → String) → α} {said : α} {offset : Nat}
    (h : ReadAs say offset x said) (y : List Char) : ReadAs say offset (x ++ y) said :=
  ReadAs.inside (a := []) h

theorem ReadAs.right {say : (Property → String) → α} {said : α} {offset : Nat}
    (h : ReadAs say (offset + x.length) y said) : ReadAs say offset (x ++ y) said := by
  simpa using ReadAs.inside (b := []) h

/-- The properties of a text that stands at an offset say these outlines. -/
abbrev PropertiesSay (properties : List Property) (offset : Nat) (x : List Char)
    (outs : List PropertyOutline) : Prop :=
  ReadAs (fun type => properties.map (Property.outline type)) offset x outs

theorem PropertiesSay.append {ps qs : List Property} {offset : Nat}
    {outs more : List PropertyOutline} (h : PropertiesSay ps offset x outs)
    (h' : PropertiesSay qs (offset + x.length) y more) :
    PropertiesSay (ps ++ qs) offset (x ++ y) (outs ++ more) := by
  intro before after hbefore
  have hfirst := h.left y before after hbefore
  have hsecond := h'.right before after hbefore
  dsimp only at hfirst hsecond ⊢
  rw [List.map_append, hfirst, hsecond]

/-- The type of a property is a part of its text. -/
theorem readAs_property {name : String} {isOptional : Bool} {offset start stop : Nat}
    {a b : List Char} (hstart : start = offset + a.length) (hstop : stop = start + x.length) :
    PropertiesSay [⟨name, isOptional, start, stop⟩] offset (a ++ x ++ b)
      [⟨name, isOptional, String.ofList x⟩] := by
  refine ReadAs.inside fun before after hbefore => ?_
  have hslice := slice_append before x after
  rw [hbefore, ← hstart, ← hstop] at hslice
  rw [List.map_singleton, Property.outline, typeIn, hslice]

/-! ## Members -/

/-- Members that go on others with the tokens of a text at an offset; the properties among them say
`outs`. -/
structure MembersGoOn (before : MemberList) (offset : Nat) (x : List Char)
    (outs : List PropertyOutline) (ts : List Token) (after : MemberList) : Prop where
  yield_eq : after.yield = before.yield ++ ts
  names : ∀ t ∈ after.names, t ∈ before.names ∨ t.IsReadable
  properties : ∃ new, after.properties = before.properties ++ new ∧ PropertiesSay new offset x outs

/-- A text that is members wherever it stands, with these properties. -/
def IsMembers (x : List Char) (outs : List PropertyOutline) : Prop :=
  Spells x fun offset ts => ∀ before, ∃ after, MembersGoOn before offset x outs ts after

/-- A text without tokens adds no members. -/
theorem isMembers_silent (h : Spells x Silent) : IsMembers x [] :=
  h.imp fun offset ts => by
    rintro rfl before
    exact ⟨before, by simp, fun t ht => .inl ht, [], by simp, fun _ _ _ => rfl⟩

/-- Members side by side. -/
theorem IsMembers.append {outs more : List PropertyOutline} (h : IsMembers x outs)
    (h' : IsMembers y more) (hparted : Parted x y) : IsMembers (x ++ y) (outs ++ more) := by
  refine (Spells.append h h' hparted).imp fun offset ts => ?_
  rintro ⟨us, vs, rfl, hus, hvs⟩ before
  obtain ⟨middle, hmiddle⟩ := hus before
  obtain ⟨after, hafter⟩ := hvs middle
  obtain ⟨new, hnew, hread⟩ := hmiddle.properties
  obtain ⟨new', hnew', hread'⟩ := hafter.properties
  refine ⟨after, ?_, fun t ht => ?_, new ++ new', ?_, hread.append hread'⟩
  · rw [hafter.yield_eq, hmiddle.yield_eq, List.append_assoc]
  · rcases hafter.names t ht with ht | ht
    · exact hmiddle.names t ht
    · exact .inr ht
  · rw [hnew', hnew, List.append_assoc]

/-- A question mark, when there is one. -/
def markChars (isOptional : Bool) : List Char :=
  if isOptional then ['?'] else []

theorem spells_mark (isOptional : Bool) :
    Spells (markChars isOptional) fun _ ts =>
      ∃ mark : Option (Leaf [.question]), optionalYield mark = ts ∧ mark.isSome = isOptional := by
  cases isOptional with
  | false => exact spells_nil.imp fun _ ts h => ⟨none, h.symm, rfl⟩
  | true =>
    have hsign : Spells ['?'] (Single .question ['?']) := spells_sign (by decide)
    refine hsign.imp fun _ ts => ?_
    rintro ⟨l, rfl, -⟩
    exact ⟨some l, rfl, rfl⟩

/-- A sign with a blank or a line feed behind it. -/
theorem spells_sign_blank {c d : Char}
    (h : c ∈ ['\x7b', '\x7d', '(', ')', '[', ']', '<', '>', ':', ';', ',', '?', '|', '&'])
    (hpart : isIdentifierPart c = false) (hd : isSeparator d) :
    Spells [c, d] (Single (Kind.ofChar c) [c]) :=
  (spells_sign h).append_silent (spells_blanks (by simpa using hd))
    (parted_of_last (by simpa using hpart) [d])

/-- A line that declares a property: its name with its mark, and its type. -/
theorem isMembers_property {k : List Char} {name : String} (hk : IsName k name) (hx : IsType x)
    (isOptional : Bool) :
    IsMembers (k ++ (markChars isOptional ++ (':' :: ' ' :: (x ++ [';', '\n']))))
      [⟨name, isOptional, String.ofList x⟩] := by
  -- the line is put together from its end: a semicolon, a type, a colon, a mark and the name
  have hcolon : Spells [':', ' '] (Single .colon [':']) :=
    spells_sign_blank (by decide) (by decide) (by decide)
  have hsemicolon : Spells [';', '\n'] (Single .semicolon [';']) :=
    spells_sign_blank (by decide) (by decide) (by decide)
  have htype := Spells.append hx hsemicolon (parted_of_head x (by simp; decide))
  have htyped := hcolon.append htype (parted_of_last (by simp; decide) _)
  have hmarked := (spells_mark isOptional).append htyped
    (parted_of_head _ (by simp; decide))
  have hnamed := Spells.append hk hmarked (parted_of_head k (by
    cases isOptional <;> simp [markChars] <;> decide))
  refine hnamed.imp fun offset ts => ?_
  rintro ⟨_, _, rfl, ⟨key, rfl, rfl, hreadable⟩, _, _, rfl, ⟨mark, rfl, rfl⟩, _, _, rfl,
    ⟨colon, rfl, -⟩, _, _, rfl, hts, ⟨separator, rfl, -⟩⟩ before
  obtain ⟨type, htype⟩ := hts none
  have hkey : key.token.kind ∈ nameKinds := keyKinds_subset key.kind_mem
  refine ⟨.more before (.mk (.property ⟨key.token, hkey⟩ mark) colon type)
    ⟨separator.token, by rw [separator.kind_eq]; decide⟩, ?_, ?_, _, rfl, ?_⟩
  · simp [MemberList.yield, MemberTree.yield, MemberHead.yield, htype.yield_eq]
  · intro t ht
    simp only [MemberList.names, MemberTree.names, MemberHead.names, List.mem_append,
      List.mem_singleton] at ht
    rcases ht with ht | rfl | ht
    · exact .inl ht
    · exact .inr hreadable
    · rcases htype.names t ht with ⟨run, hrun, -⟩ | ht
      · simp at hrun
      · exact .inr ht
  · -- the span of the type is where the type stands in the line
    have hread : PropertiesSay [⟨key.token.name, mark.isSome, type.start, type.stop⟩] offset
        (k ++ markChars mark.isSome ++ [':', ' '] ++ x ++ [';', '\n'])
        [⟨key.token.name, mark.isSome, String.ofList x⟩] := by
      refine readAs_property ?_ ?_
      · rw [htype.start_eq]
        simp
        omega
      · rw [htype.stop_eq, htype.start_eq]
        rfl
    simpa [MemberTree.property?] using hread

/-! ## Object types -/

/-- A text that is an object type wherever it stands, with these properties. -/
def IsObject (x : List Char) (outs : List PropertyOutline) : Prop :=
  Spells x fun offset ts => ∃ o : ObjectType, o.yield = ts ∧ o.opening.token.offset = offset ∧
    o.closing.token.stop = offset + x.length ∧ (∀ t ∈ o.names, t.IsReadable) ∧
      PropertiesSay o.properties offset x outs

/-- Members between braces are an object type. -/
theorem IsMembers.isObject {outs : List PropertyOutline} (h : IsMembers x outs) :
    IsObject ('\x7b' :: x ++ ['\x7d']) outs := by
  have hopen : Spells ['\x7b'] (Single .leftBrace ['\x7b']) := spells_sign (by decide)
  have hclose : Spells ['\x7d'] (Single .rightBrace ['\x7d']) := spells_sign (by decide)
  have hinside := hopen.append h (parted_of_last (by simp; decide) x)
  refine (hinside.append hclose (parted_of_head _ (by simp; decide))).imp fun offset ts => ?_
  rintro ⟨_, _, rfl, ⟨_, us, rfl, ⟨opening, rfl, -, hstart⟩, hus⟩, ⟨closing, rfl, htext, hstop⟩⟩
  obtain ⟨list, hyield, hnames, new, hnew, hread⟩ := hus .empty
  have hproperties : list.properties = new := hnew
  refine ⟨.mk opening (.separated list) closing, ?_, hstart, ?_, fun t ht => ?_, ?_⟩
  · simp [ObjectType.yield, Members.yield, hyield, MemberList.yield]
  · rw [ObjectType.closing_mk, stop_of_text htext, hstop]
    simp
    omega
  · exact (hnames t ht).resolve_left (by simp [MemberList.names])
  · show PropertiesSay list.properties offset _ outs
    rw [hproperties]
    exact ReadAs.inside (a := ['\x7b']) hread

/-- An object type is a type. -/
theorem IsObject.isType {outs : List PropertyOutline} (h : IsObject x outs) : IsType x :=
  isType_item <| h.imp fun offset ts => by
    rintro ⟨o, rfl, hstart, hstop, hnames, -⟩
    exact ⟨.object o, rfl, hstart, hstop, hnames⟩

end SchemaTypings.Declaration
