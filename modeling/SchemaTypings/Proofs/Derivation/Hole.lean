import SchemaTypings.Proofs.Derivation.Move

/-!
# Types in their places

The type of a property is taken out of a derivation and another one put in its place. `Hole` says
what stands around the type: the tokens, names and properties in front of it stay as they are, those
behind it are moved. `exists_hole` finds the hole of every property that can be edited, from the
inside to the outside: the member, the object type, the declaration, the statements around it; each
step of that way is a `Frame`.
-/

namespace SchemaTypings.Declaration

/-- The property with the span of another type. -/
def Property.retype (p : Property) (x : TypeTree) : Property :=
  { p with typeStart := x.start, typeEnd := x.stop }

/-- The type of a property begins and ends with some of these tokens. -/
def HasSpan (ts : List Token) (p : Property) : Prop :=
  ∃ t ∈ ts, ∃ u ∈ ts, p.typeStart = t.offset ∧ p.typeEnd = u.stop

theorem HasSpan.mono {ts us : List Token} {p : Property} (h : HasSpan ts p) (hsub : ts ⊆ us) :
    HasSpan us p := by
  obtain ⟨t, ht, u, hu, hspan⟩ := h
  exact ⟨t, hsub ht, u, hsub hu, hspan⟩

/-- What is read off the trees of one kind: their tokens, names and properties, and what they say
when the texts of types are given. -/
structure Reading (α β : Type) where
  yield : α → List Token
  names : α → List Token
  properties : α → List Property
  view : (Property → String) → α → β

/-- A place for the type of a property in a tree. -/
structure Hole {α β : Type} (k : Reading α β) (a : α) (p : Property) where
  /-- The tree with another type, and everything behind it moved. -/
  fill : Move → TypeTree → α
  type : TypeTree
  before : List Token
  after : List Token
  namesBefore : List Token
  namesAfter : List Token
  left : List Property
  right : List Property
  retype_eq : p.retype type = p
  yield_eq : k.yield a = before ++ type.yield ++ after
  yield_fill : ∀ m x, k.yield (fill m x) = before ++ x.yield ++ after.map m.token
  names_eq : k.names a = namesBefore ++ type.names ++ namesAfter
  names_fill : ∀ m x, k.names (fill m x) = namesBefore ++ x.names ++ namesAfter.map m.token
  properties_eq : k.properties a = left ++ p :: right
  properties_fill : ∀ m x, m.Fits after →
    k.properties (fill m x) = left ++ p.retype x :: right.map m.property
  view_fill : ∀ (m : Move) x f g, m.Fits after → (∀ q ∈ left, f q = g q) →
    f p = g (p.retype x) → (∀ q ∈ right, f q = g (m.property q)) →
    k.view f a = k.view g (fill m x)
  left_span : ∀ q ∈ left, HasSpan before q
  right_span : ∀ q ∈ right, HasSpan after q
  colon : ∃ ts c, before = ts ++ [c] ∧ c.kind = .colon
  closing : ∃ c ts, after = c :: ts ∧ c.kind ∈ [.semicolon, .comma, .rightBrace]

/-- What stands around a tree in a larger one. -/
structure Frame {α β α' β' : Type} (k : Reading α β) (k' : Reading α' β') (a : α) (a' : α') where
  /-- The larger tree with another part, and everything behind it moved. -/
  build : Move → α → α'
  before : List Token
  after : List Token
  namesBefore : List Token
  namesAfter : List Token
  left : List Property
  right : List Property
  yield_eq : k'.yield a' = before ++ k.yield a ++ after
  yield_build : ∀ m x, k'.yield (build m x) = before ++ k.yield x ++ after.map m.token
  names_eq : k'.names a' = namesBefore ++ k.names a ++ namesAfter
  names_build : ∀ m x, k'.names (build m x) = namesBefore ++ k.names x ++ namesAfter.map m.token
  properties_eq : k'.properties a' = left ++ k.properties a ++ right
  properties_build : ∀ m x, m.Fits after →
    k'.properties (build m x) = left ++ k.properties x ++ right.map m.property
  view_build : ∀ (m : Move) x f g, m.Fits after → (∀ q ∈ left, f q = g q) →
    (∀ q ∈ right, f q = g (m.property q)) → k.view f a = k.view g x →
    k'.view f a' = k'.view g (build m x)
  left_span : ∀ q ∈ left, HasSpan before q
  right_span : ∀ q ∈ right, HasSpan after q

/-- A hole in a part is one in the larger tree. -/
def Hole.inside {α β α' β' : Type} {k : Reading α β} {k' : Reading α' β'} {a : α} {a' : α'}
    {p : Property} (h : Hole k a p) (f : Frame k k' a a') : Hole k' a' p where
  fill m x := f.build m (h.fill m x)
  type := h.type
  before := f.before ++ h.before
  after := h.after ++ f.after
  namesBefore := f.namesBefore ++ h.namesBefore
  namesAfter := h.namesAfter ++ f.namesAfter
  left := f.left ++ h.left
  right := h.right ++ f.right
  retype_eq := h.retype_eq
  yield_eq := by simp [f.yield_eq, h.yield_eq]
  yield_fill m x := by simp [f.yield_build, h.yield_fill]
  names_eq := by simp [f.names_eq, h.names_eq]
  names_fill m x := by simp [f.names_build, h.names_fill]
  properties_eq := by simp [f.properties_eq, h.properties_eq]
  properties_fill m x hfits := by
    have hinner := h.properties_fill m x (hfits.mono (by simp))
    have houter := f.properties_build m (h.fill m x) (hfits.mono (by simp))
    simp [hinner, houter]
  view_fill m x g g' hfits hleft hp hright := by
    have hinner := h.view_fill m x g g' (hfits.mono (by simp))
      (fun q hq => hleft q (by simp [hq])) hp (fun q hq => hright q (by simp [hq]))
    exact f.view_build m (h.fill m x) g g' (hfits.mono (by simp))
      (fun q hq => hleft q (by simp [hq])) (fun q hq => hright q (by simp [hq])) hinner
  left_span q hq := by
    obtain hq | hq := List.mem_append.mp hq
    · exact (f.left_span q hq).mono (by simp)
    · exact (h.left_span q hq).mono (by simp)
  right_span q hq := by
    obtain hq | hq := List.mem_append.mp hq
    · exact (h.right_span q hq).mono (by simp)
    · exact (f.right_span q hq).mono (by simp)
  colon := by
    obtain ⟨ts, c, hts, hc⟩ := h.colon
    exact ⟨f.before ++ ts, c, by simp [hts], hc⟩
  closing := by
    obtain ⟨c, ts, hts, hc⟩ := h.closing
    exact ⟨c, ts ++ f.after, by simp [hts], hc⟩

/-! ## The spans of properties -/

/-- An item of a type starts where its first token does. -/
theorem TypeItem.yield_eq_cons (i : TypeItem) : ∃ t ts, i.yield = t :: ts ∧ i.start = t.offset := by
  cases i with
  | token t => exact ⟨t.token, [], rfl, rfl⟩
  | group b h g => exact ⟨g.opening.token, _, rfl, rfl⟩
  | object o =>
    obtain ⟨opening, members, closing⟩ := o
    exact ⟨opening.token, _, rfl, rfl⟩

/-- An item of a type stops where its last token does. -/
theorem TypeItem.yield_eq_append (i : TypeItem) :
    ∃ ts t, i.yield = ts ++ [t] ∧ i.stop = t.stop := by
  cases i with
  | token t => exact ⟨[], t.token, rfl, rfl⟩
  | group b h g => exact ⟨g.opening.token :: g.inside.yield, g.closing.token, rfl, rfl⟩
  | object o =>
    obtain ⟨opening, members, closing⟩ := o
    exact ⟨opening.token :: members.yield, closing.token, rfl, rfl⟩

/-- A type starts where its first token does. -/
theorem TypeTree.yield_eq_cons (x : TypeTree) : ∃ t ts, x.yield = t :: ts ∧ x.start = t.offset := by
  cases x with
  | item i => exact i.yield_eq_cons
  | more before i =>
    obtain ⟨t, ts, hyield, hstart⟩ := before.yield_eq_cons
    exact ⟨t, ts ++ i.yield, by simp [TypeTree.yield, hyield], hstart⟩

/-- A type stops where its last token does. -/
theorem TypeTree.yield_eq_append (x : TypeTree) : ∃ ts t, x.yield = ts ++ [t] ∧ x.stop = t.stop := by
  cases x with
  | item i => exact i.yield_eq_append
  | more before i =>
    obtain ⟨ts, t, hyield, hstop⟩ := i.yield_eq_append
    exact ⟨before.yield ++ ts, t, by simp [TypeTree.yield, hyield], hstop⟩

/-- The property of a member has the span of its type. -/
theorem MemberTree.hasSpan {m : MemberTree} {q : Property} (h : m.property? = some q) :
    HasSpan m.yield q := by
  obtain ⟨head, colon, type⟩ := m
  cases head with
  | property name mark =>
    obtain rfl := Option.some.inj h
    obtain ⟨t, ts, hstart, ht⟩ := type.yield_eq_cons
    obtain ⟨us, u, hstop, hu⟩ := type.yield_eq_append
    refine ⟨t, ?_, u, ?_, ht, hu⟩
    · simp [MemberTree.yield, hstart]
    · simp [MemberTree.yield, hstop]
  | _ => simp [MemberTree.property?] at h

theorem MemberList.hasSpan {l : MemberList} {q : Property} (h : q ∈ l.properties) :
    HasSpan l.yield q := by
  cases l with
  | empty => simp [MemberList.properties] at h
  | more before member separator =>
    rw [MemberList.properties, List.mem_append, Option.mem_toList] at h
    obtain h | h := h
    · exact (MemberList.hasSpan h).mono (by simp [MemberList.yield])
    · exact (MemberTree.hasSpan h).mono (by intro t; simp [MemberList.yield]; grind)

theorem ObjectType.hasSpan {o : ObjectType} {q : Property} (h : q ∈ o.properties) :
    HasSpan o.yield q := by
  obtain ⟨opening, members, closing⟩ := o
  cases members with
  | separated list =>
    exact (MemberList.hasSpan h).mono
      (by intro t; simp [ObjectType.yield, Members.yield]; grind)
  | last list member =>
    rw [ObjectType.properties, Members.properties, List.mem_append, Option.mem_toList] at h
    obtain h | h := h
    · exact (MemberList.hasSpan h).mono
        (by intro t; simp [ObjectType.yield, Members.yield]; grind)
    · exact (MemberTree.hasSpan h).mono
        (by intro t; simp [ObjectType.yield, Members.yield]; grind)

/-- A type with properties is one object type. -/
theorem exists_object_of_mem_literal {type : TypeTree} {q : Property}
    (h : q ∈ type.literal.getD []) : ∃ o, type = .item (.object o) ∧ q ∈ o.properties := by
  cases type with
  | item i =>
    cases i with
    | object o => exact ⟨o, rfl, h⟩
    | _ => simp [TypeTree.literal] at h
  | more before i => simp [TypeTree.literal] at h

theorem DeclarationTree.hasSpan {d : DeclarationTree} (isExported : Bool) {q : Property}
    (h : q ∈ (d.statement isExported).properties) : HasSpan d.yield q := by
  cases d with
  | interface i =>
    exact (ObjectType.hasSpan h).mono
      (by intro t; simp [DeclarationTree.yield, InterfaceTree.yield]; grind)
  | «alias» a =>
    obtain ⟨word, name, parameters, equals, type, semicolon⟩ := a
    obtain ⟨o, rfl, h⟩ := exists_object_of_mem_literal h
    exact (ObjectType.hasSpan h).mono
      (by intro t; simp [DeclarationTree.yield, AliasTree.yield, TypeTree.yield, TypeItem.yield]
          grind)

mutual
theorem Statements.hasSpan {d : Statements} {q : Property}
    (h : q ∈ allProperties d.statements) : HasSpan d.yield q := by
  cases d with
  | empty => simp [Statements.statements, allProperties] at h
  | more before s =>
    rw [Statements.statements, allProperties_append, List.mem_append] at h
    obtain h | h := h
    · exact (Statements.hasSpan h).mono (by simp [Statements.yield])
    · exact (StatementTree.hasSpan h).mono (by simp [Statements.yield])

theorem StatementTree.hasSpan {s : StatementTree} {q : Property}
    (h : q ∈ allProperties s.statement?.toList) : HasSpan s.yield q := by
  cases s with
  | declaration d =>
    exact DeclarationTree.hasSpan false
      (by simpa [StatementTree.statement?, allProperties] using h)
  | exported word d =>
    exact (DeclarationTree.hasSpan true
      (by simpa [StatementTree.statement?, allProperties] using h)).mono
      (by simp [StatementTree.yield])
  | «import» i => simp [StatementTree.statement?, allProperties] at h
  | module declareWord word name opening body closing =>
    exact (Statements.hasSpan (d := body)
      (by simpa [StatementTree.statement?, allProperties, Statement.properties] using h)).mono
      (by intro t; simp [StatementTree.yield]; grind)
end

/-! ## The hole of a property -/

namespace Reading

/-- What is read off members with their separators. -/
def memberList : Reading MemberList (List PropertyOutline) where
  yield := MemberList.yield
  names := MemberList.names
  properties := MemberList.properties
  view f l := l.properties.map (Property.outline f)

/-- What is read off an object type. -/
def objectType : Reading ObjectType (List PropertyOutline) where
  yield := ObjectType.yield
  names := ObjectType.names
  properties := ObjectType.properties
  view f o := o.properties.map (Property.outline f)

/-- What is read off a declaration. -/
def declaration (isExported : Bool) : Reading DeclarationTree Outline where
  yield := DeclarationTree.yield
  names := DeclarationTree.names
  properties d := (d.statement isExported).properties
  view f d := (d.statement isExported).outline f

/-- What is read off a statement. -/
def statement : Reading StatementTree (List Outline) where
  yield := StatementTree.yield
  names := StatementTree.names
  properties s := allProperties s.statement?.toList
  view f s := outlines f s.statement?.toList

/-- What is read off the statements of a file. -/
def statements : Reading Statements (List Outline) where
  yield := Statements.yield
  names := Statements.names
  properties d := allProperties d.statements
  view f d := outlines f d.statements

end Reading

/-- The outlines of properties that have the same types before and after a move. -/
theorem map_outline_move {m : Move} {f g : Property → String} {ps : List Property}
    (h : ∀ q ∈ ps, f q = g (m.property q)) :
    ps.map (Property.outline f) = (ps.map m.property).map (Property.outline g) := by
  rw [List.map_map]
  exact List.map_congr_left fun q hq => by simp [Property.outline, Move.property, h q hq]

/-- The outlines of properties that have the same types. -/
theorem map_outline_congr {f g : Property → String} {ps : List Property}
    (h : ∀ q ∈ ps, f q = g q) : ps.map (Property.outline f) = ps.map (Property.outline g) :=
  List.map_congr_left fun q hq => by simp [Property.outline, h q hq]

/-- The separator behind a member ends its type. -/
theorem separator_ends (separator : Leaf [.semicolon, .comma]) :
    separator.token.kind ∈ [Kind.semicolon, .comma, .rightBrace] := by
  have h := separator.kind_mem
  simp only [List.mem_cons, List.not_mem_nil, or_false] at h ⊢
  rcases h with h | h <;> simp [h]

/-- The type of the last member, in front of its separator. -/
def Hole.ofMember (before : MemberList) (name : Leaf nameKinds) (mark : Option (Leaf [.question]))
    (colon : Leaf [.colon]) (type : TypeTree) (separator : Leaf [.semicolon, .comma]) :
    Hole Reading.memberList (.more before (.mk (.property name mark) colon type) separator)
      ⟨name.token.name, mark.isSome, type.start, type.stop⟩ where
  fill m x := .more before (.mk (.property name mark) colon x) (m.relocation.leaf separator)
  type := type
  before := before.yield ++ name.token :: optionalYield mark ++ [colon.token]
  after := [separator.token]
  namesBefore := before.names ++ [name.token]
  namesAfter := []
  left := before.properties
  right := []
  retype_eq := rfl
  yield_eq := by
    simp [Reading.memberList, MemberList.yield, MemberTree.yield, MemberHead.yield]
  yield_fill m x := by
    simp [Reading.memberList, MemberList.yield, MemberTree.yield, MemberHead.yield]
  names_eq := by simp [Reading.memberList, MemberList.names, MemberTree.names, MemberHead.names]
  names_fill m x := by
    simp [Reading.memberList, MemberList.names, MemberTree.names, MemberHead.names]
  properties_eq := by simp [Reading.memberList, MemberList.properties, MemberTree.property?]
  properties_fill m x _ := by
    simp [Reading.memberList, MemberList.properties, MemberTree.property?, Property.retype]
  view_fill m x f g _ hleft hp _ := by
    simp only [Reading.memberList, MemberList.properties, MemberTree.property?, Option.toList_some,
      List.map_append, List.map_cons, List.map_nil, map_outline_congr hleft]
    simp [Property.outline, hp, Property.retype]
  left_span q hq := (MemberList.hasSpan hq).mono (by simp)
  right_span q hq := by simp at hq
  colon := ⟨_, colon.token, rfl, colon.kind_eq⟩
  closing := ⟨separator.token, [], rfl, separator_ends separator⟩

/-- The type of the last member of an object type, in front of the closing brace. -/
def Hole.ofLastMember (opening : Leaf [.leftBrace]) (before : MemberList) (name : Leaf nameKinds)
    (mark : Option (Leaf [.question])) (colon : Leaf [.colon]) (type : TypeTree)
    (closing : Leaf [.rightBrace]) :
    Hole Reading.objectType
      (.mk opening (.last before (.mk (.property name mark) colon type)) closing)
      ⟨name.token.name, mark.isSome, type.start, type.stop⟩ where
  fill m x := .mk opening (.last before (.mk (.property name mark) colon x)) (m.relocation.leaf closing)
  type := type
  before := opening.token :: before.yield ++ name.token :: optionalYield mark ++ [colon.token]
  after := [closing.token]
  namesBefore := before.names ++ [name.token]
  namesAfter := []
  left := before.properties
  right := []
  retype_eq := rfl
  yield_eq := by
    simp [Reading.objectType, ObjectType.yield, Members.yield, MemberTree.yield, MemberHead.yield]
  yield_fill m x := by
    simp [Reading.objectType, ObjectType.yield, Members.yield, MemberTree.yield, MemberHead.yield]
  names_eq := by
    simp [Reading.objectType, ObjectType.names, Members.names, MemberTree.names, MemberHead.names]
  names_fill m x := by
    simp [Reading.objectType, ObjectType.names, Members.names, MemberTree.names, MemberHead.names]
  properties_eq := by
    simp [Reading.objectType, ObjectType.properties, Members.properties, MemberTree.property?]
  properties_fill m x _ := by
    simp [Reading.objectType, ObjectType.properties, Members.properties, MemberTree.property?,
      Property.retype]
  view_fill m x f g _ hleft hp _ := by
    simp only [Reading.objectType, ObjectType.properties, Members.properties,
      MemberTree.property?, Option.toList_some, List.map_append, List.map_cons, List.map_nil,
      map_outline_congr hleft]
    simp [Property.outline, hp, Property.retype]
  left_span q hq := (MemberList.hasSpan hq).mono (by intro t; simp; grind)
  right_span q hq := by simp at hq
  colon := ⟨_, colon.token, rfl, colon.kind_eq⟩
  closing := ⟨closing.token, [], rfl, by simp [closing.kind_eq]⟩

/-- Members in front of another one. -/
def Frame.beforeMember (before : MemberList) (member : MemberTree)
    (separator : Leaf [.semicolon, .comma]) :
    Frame Reading.memberList Reading.memberList before (.more before member separator) where
  build m x := .more x (member.move m) (m.relocation.leaf separator)
  before := []
  after := member.yield ++ [separator.token]
  namesBefore := []
  namesAfter := member.names
  left := []
  right := member.property?.toList
  yield_eq := by simp [Reading.memberList, MemberList.yield]
  yield_build m x := by simp [Reading.memberList, MemberList.yield]
  names_eq := by simp [Reading.memberList, MemberList.names]
  names_build m x := by simp [Reading.memberList, MemberList.names]
  properties_eq := by simp [Reading.memberList, MemberList.properties]
  properties_build m x hfits := by
    have hmember := member.property?_move (hfits.mono (by simp))
    cases hp : member.property? <;>
      simp [Reading.memberList, MemberList.properties, hmember, hp]
  view_build m x f g hfits _ hright hview := by
    have hmember := member.property?_move (hfits.mono (by simp))
    simp only [Reading.memberList, MemberList.properties, List.map_append] at hview ⊢
    rw [hview, map_outline_move hright, hmember, Option.toList_map]
  left_span q hq := by simp at hq
  right_span q hq := (MemberTree.hasSpan (Option.mem_toList.mp hq)).mono (by simp)

/-- Members that all have a separator, in their braces. -/
def Frame.separated (opening : Leaf [.leftBrace]) (list : MemberList)
    (closing : Leaf [.rightBrace]) :
    Frame Reading.memberList Reading.objectType list (.mk opening (.separated list) closing) where
  build m x := .mk opening (.separated x) (m.relocation.leaf closing)
  before := [opening.token]
  after := [closing.token]
  namesBefore := []
  namesAfter := []
  left := []
  right := []
  yield_eq := by simp [Reading.memberList, Reading.objectType, ObjectType.yield, Members.yield]
  yield_build m x := by
    simp [Reading.memberList, Reading.objectType, ObjectType.yield, Members.yield]
  names_eq := by simp [Reading.memberList, Reading.objectType, ObjectType.names, Members.names]
  names_build m x := by
    simp [Reading.memberList, Reading.objectType, ObjectType.names, Members.names]
  properties_eq := by
    simp [Reading.memberList, Reading.objectType, ObjectType.properties, Members.properties]
  properties_build m x _ := by
    simp [Reading.memberList, Reading.objectType, ObjectType.properties, Members.properties]
  view_build m x f g _ _ _ hview := hview
  left_span q hq := by simp at hq
  right_span q hq := by simp at hq

/-- Members in front of one without a separator, in their braces. -/
def Frame.beforeLast (opening : Leaf [.leftBrace]) (list : MemberList) (member : MemberTree)
    (closing : Leaf [.rightBrace]) :
    Frame Reading.memberList Reading.objectType list
      (.mk opening (.last list member) closing) where
  build m x := .mk opening (.last x (member.move m)) (m.relocation.leaf closing)
  before := [opening.token]
  after := member.yield ++ [closing.token]
  namesBefore := []
  namesAfter := member.names
  left := []
  right := member.property?.toList
  yield_eq := by simp [Reading.memberList, Reading.objectType, ObjectType.yield, Members.yield]
  yield_build m x := by
    simp [Reading.memberList, Reading.objectType, ObjectType.yield, Members.yield]
  names_eq := by simp [Reading.memberList, Reading.objectType, ObjectType.names, Members.names]
  names_build m x := by
    simp [Reading.memberList, Reading.objectType, ObjectType.names, Members.names]
  properties_eq := by
    simp [Reading.memberList, Reading.objectType, ObjectType.properties, Members.properties]
  properties_build m x hfits := by
    have hmember := member.property?_move (hfits.mono (by simp))
    cases hp : member.property? <;>
      simp [Reading.memberList, Reading.objectType, ObjectType.properties, Members.properties,
        hmember, hp]
  view_build m x f g hfits _ hright hview := by
    have hmember := member.property?_move (hfits.mono (by simp))
    simp only [Reading.memberList, Reading.objectType, ObjectType.properties, Members.properties,
      List.map_append] at hview ⊢
    rw [hview, map_outline_move hright, hmember, Option.toList_map]
  left_span q hq := by simp at hq
  right_span q hq := (MemberTree.hasSpan (Option.mem_toList.mp hq)).mono (by simp)

/-- Every property among members with their separators has a hole. -/
theorem MemberList.exists_hole {l : MemberList} {p : Property} (h : p ∈ l.properties) :
    Nonempty (Hole Reading.memberList l p) := by
  cases l with
  | empty => simp [MemberList.properties] at h
  | more before member separator =>
    rw [MemberList.properties, List.mem_append, Option.mem_toList] at h
    obtain h | h := h
    · obtain ⟨hole⟩ := MemberList.exists_hole h
      exact ⟨hole.inside (.beforeMember before member separator)⟩
    · obtain ⟨head, colon, type⟩ := member
      cases head with
      | property name mark =>
        obtain rfl := Option.some.inj h
        exact ⟨.ofMember before name mark colon type separator⟩
      | _ => simp [MemberTree.property?] at h

/-- Every property of an object type has a hole. -/
theorem ObjectType.exists_hole {o : ObjectType} {p : Property} (h : p ∈ o.properties) :
    Nonempty (Hole Reading.objectType o p) := by
  obtain ⟨opening, members, closing⟩ := o
  cases members with
  | separated list =>
    obtain ⟨hole⟩ := MemberList.exists_hole h
    exact ⟨hole.inside (.separated opening list closing)⟩
  | last list member =>
    rw [ObjectType.properties, Members.properties, List.mem_append, Option.mem_toList] at h
    obtain h | h := h
    · obtain ⟨hole⟩ := MemberList.exists_hole h
      exact ⟨hole.inside (.beforeLast opening list member closing)⟩
    · obtain ⟨head, colon, type⟩ := member
      cases head with
      | property name mark =>
        obtain rfl := Option.some.inj h
        exact ⟨.ofLastMember opening list name mark colon type closing⟩
      | _ => simp [MemberTree.property?] at h

/-- The body of an interface. -/
def Frame.interface (i : InterfaceTree) (isExported : Bool) :
    Frame Reading.objectType (Reading.declaration isExported) i.body (.interface i) where
  build _ x := .interface { i with body := x }
  before := i.word.token :: i.name.token :: optionalGroupYield i.parameters ++
    heritageYield i.heritage
  after := []
  namesBefore := []
  namesAfter := []
  left := []
  right := []
  yield_eq := by
    simp [Reading.objectType, Reading.declaration, DeclarationTree.yield, InterfaceTree.yield]
  yield_build m x := by
    simp [Reading.objectType, Reading.declaration, DeclarationTree.yield, InterfaceTree.yield]
  names_eq := by simp [Reading.objectType, Reading.declaration, DeclarationTree.names]
  names_build m x := by simp [Reading.objectType, Reading.declaration, DeclarationTree.names]
  properties_eq := by
    simp [Reading.objectType, Reading.declaration, DeclarationTree.statement, Statement.properties]
  properties_build m x _ := by
    simp [Reading.objectType, Reading.declaration, DeclarationTree.statement, Statement.properties]
  view_build m x f g _ _ _ hview := congrArg (Outline.interface i.name.token.text isExported) hview
  left_span q hq := by simp at hq
  right_span q hq := by simp at hq

/-- The object type that an alias stands for. -/
def Frame.alias (word : Leaf [.typeWord]) (name : Leaf [.identifier])
    (parameters : Option (Group .angle)) (equals : Leaf [.equals]) (o : ObjectType)
    (semicolon : Option (Leaf [.semicolon])) (isExported : Bool) :
    Frame Reading.objectType (Reading.declaration isExported) o
      (.alias ⟨word, name, parameters, equals, .item (.object o), semicolon⟩) where
  build m x :=
    .alias ⟨word, name, parameters, equals, .item (.object x), semicolon.map m.relocation.leaf⟩
  before := word.token :: name.token :: optionalGroupYield parameters ++ [equals.token]
  after := optionalYield semicolon
  namesBefore := []
  namesAfter := []
  left := []
  right := []
  yield_eq := by
    simp [Reading.objectType, Reading.declaration, DeclarationTree.yield, AliasTree.yield,
      TypeTree.yield, TypeItem.yield]
  yield_build m x := by
    simp [Reading.objectType, Reading.declaration, DeclarationTree.yield, AliasTree.yield,
      TypeTree.yield, TypeItem.yield]
  names_eq := by
    simp [Reading.objectType, Reading.declaration, DeclarationTree.names, TypeTree.names,
      TypeItem.names]
  names_build m x := by
    simp [Reading.objectType, Reading.declaration, DeclarationTree.names, TypeTree.names,
      TypeItem.names]
  properties_eq := by
    simp [Reading.objectType, Reading.declaration, DeclarationTree.statement, Statement.properties,
      TypeTree.literal]
  properties_build m x _ := by
    simp [Reading.objectType, Reading.declaration, DeclarationTree.statement, Statement.properties,
      TypeTree.literal]
  view_build m x f g _ _ _ hview :=
    congrArg (fun ps => Outline.alias name.token.text isExported (some ps)) hview
  left_span q hq := by simp at hq
  right_span q hq := by simp at hq

/-- Every property of a declaration has a hole. -/
theorem DeclarationTree.exists_hole {d : DeclarationTree} (isExported : Bool) {p : Property}
    (h : p ∈ (d.statement isExported).properties) :
    Nonempty (Hole (Reading.declaration isExported) d p) := by
  cases d with
  | interface i =>
    obtain ⟨hole⟩ := ObjectType.exists_hole h
    exact ⟨hole.inside (.interface i isExported)⟩
  | «alias» a =>
    obtain ⟨word, name, parameters, equals, type, semicolon⟩ := a
    obtain ⟨o, rfl, h⟩ := exists_object_of_mem_literal h
    obtain ⟨hole⟩ := ObjectType.exists_hole h
    exact ⟨hole.inside (.alias word name parameters equals o semicolon isExported)⟩

/-- A declaration as a statement. -/
def Frame.declaration (d : DeclarationTree) :
    Frame (Reading.declaration false) Reading.statement d (.declaration d) where
  build _ x := .declaration x
  before := []
  after := []
  namesBefore := []
  namesAfter := []
  left := []
  right := []
  yield_eq := by simp [Reading.declaration, Reading.statement, StatementTree.yield]
  yield_build m x := by simp [Reading.declaration, Reading.statement, StatementTree.yield]
  names_eq := by simp [Reading.declaration, Reading.statement, StatementTree.names]
  names_build m x := by simp [Reading.declaration, Reading.statement, StatementTree.names]
  properties_eq := by
    simp [Reading.declaration, Reading.statement, StatementTree.statement?, allProperties]
  properties_build m x _ := by
    simp [Reading.declaration, Reading.statement, StatementTree.statement?, allProperties]
  view_build m x f g _ _ _ hview := congrArg (fun o => [o]) hview
  left_span q hq := by simp at hq
  right_span q hq := by simp at hq

/-- A declaration behind the word that exports it. -/
def Frame.exported (word : Leaf [.exportWord]) (d : DeclarationTree) :
    Frame (Reading.declaration true) Reading.statement d (.exported word d) where
  build _ x := .exported word x
  before := [word.token]
  after := []
  namesBefore := []
  namesAfter := []
  left := []
  right := []
  yield_eq := by simp [Reading.declaration, Reading.statement, StatementTree.yield]
  yield_build m x := by simp [Reading.declaration, Reading.statement, StatementTree.yield]
  names_eq := by simp [Reading.declaration, Reading.statement, StatementTree.names]
  names_build m x := by simp [Reading.declaration, Reading.statement, StatementTree.names]
  properties_eq := by
    simp [Reading.declaration, Reading.statement, StatementTree.statement?, allProperties]
  properties_build m x _ := by
    simp [Reading.declaration, Reading.statement, StatementTree.statement?, allProperties]
  view_build m x f g _ _ _ hview := congrArg (fun o => [o]) hview
  left_span q hq := by simp at hq
  right_span q hq := by simp at hq

/-- The statements of a module block. -/
def Frame.module (declareWord : Leaf [.declareWord]) (word : Leaf [.moduleWord])
    (name : Leaf [.string, .identifier]) (opening : Leaf [.leftBrace]) (body : Statements)
    (closing : Leaf [.rightBrace]) :
    Frame Reading.statements Reading.statement body
      (.module declareWord word name opening body closing) where
  build m x := .module declareWord word name opening x (m.relocation.leaf closing)
  before := [declareWord.token, word.token, name.token, opening.token]
  after := [closing.token]
  namesBefore := [name.token]
  namesAfter := []
  left := []
  right := []
  yield_eq := by simp [Reading.statements, Reading.statement, StatementTree.yield]
  yield_build m x := by simp [Reading.statements, Reading.statement, StatementTree.yield]
  names_eq := by simp [Reading.statements, Reading.statement, StatementTree.names]
  names_build m x := by simp [Reading.statements, Reading.statement, StatementTree.names]
  properties_eq := by
    simp [Reading.statements, Reading.statement, StatementTree.statement?, allProperties,
      Statement.properties]
  properties_build m x _ := by
    simp [Reading.statements, Reading.statement, StatementTree.statement?, allProperties,
      Statement.properties]
  view_build m x f g _ _ _ hview :=
    congrArg (fun os => [Outline.module name.token.name os]) hview
  left_span q hq := by simp at hq
  right_span q hq := by simp at hq

/-- Statements in front of another one. -/
def Frame.beforeStatement (before : Statements) (s : StatementTree) :
    Frame Reading.statements Reading.statements before (.more before s) where
  build m x := .more x (s.move m)
  before := []
  after := s.yield
  namesBefore := []
  namesAfter := s.names
  left := []
  right := allProperties s.statement?.toList
  yield_eq := by simp [Reading.statements, Statements.yield]
  yield_build m x := by simp [Reading.statements, Statements.yield]
  names_eq := by simp [Reading.statements, Statements.names]
  names_build m x := by simp [Reading.statements, Statements.names]
  properties_eq := by simp [Reading.statements, Statements.statements]
  properties_build m x hfits := by
    have hs := (s.outlines_move (fun _ => "") hfits).2
    simp [Reading.statements, Statements.statements, hs]
  view_build m x f g hfits _ hright hview := by
    have hs := (s.outlines_move g hfits).1
    simp only [Reading.statements, Statements.statements, outlines_append] at hview ⊢
    rw [hview, hs, outlines_congr _ hright]
  left_span q hq := by simp at hq
  right_span q hq := StatementTree.hasSpan hq

/-- A statement behind others. -/
def Frame.afterStatements (before : Statements) (s : StatementTree) :
    Frame Reading.statement Reading.statements s (.more before s) where
  build _ x := .more before x
  before := before.yield
  after := []
  namesBefore := before.names
  namesAfter := []
  left := allProperties before.statements
  right := []
  yield_eq := by simp [Reading.statements, Reading.statement, Statements.yield]
  yield_build m x := by simp [Reading.statements, Reading.statement, Statements.yield]
  names_eq := by simp [Reading.statements, Reading.statement, Statements.names]
  names_build m x := by simp [Reading.statements, Reading.statement, Statements.names]
  properties_eq := by simp [Reading.statements, Reading.statement, Statements.statements]
  properties_build m x _ := by simp [Reading.statements, Reading.statement, Statements.statements]
  view_build m x f g _ hleft _ hview := by
    simp only [Reading.statements, Reading.statement, Statements.statements,
      outlines_append] at hview ⊢
    rw [hview, outlines_congr _ hleft]
  left_span q hq := Statements.hasSpan hq
  right_span q hq := by simp at hq

mutual
/-- Every property of a file has a hole. -/
theorem Statements.exists_hole {d : Statements} {p : Property}
    (h : p ∈ allProperties d.statements) : Nonempty (Hole Reading.statements d p) := by
  cases d with
  | empty => simp [Statements.statements, allProperties] at h
  | more before s =>
    rw [Statements.statements, allProperties_append, List.mem_append] at h
    obtain h | h := h
    · obtain ⟨hole⟩ := Statements.exists_hole h
      exact ⟨hole.inside (.beforeStatement before s)⟩
    · obtain ⟨hole⟩ := StatementTree.exists_hole h
      exact ⟨hole.inside (.afterStatements before s)⟩

/-- Every property of a statement has a hole. -/
theorem StatementTree.exists_hole {s : StatementTree} {p : Property}
    (h : p ∈ allProperties s.statement?.toList) : Nonempty (Hole Reading.statement s p) := by
  cases s with
  | declaration d =>
    obtain ⟨hole⟩ := DeclarationTree.exists_hole false
      (by simpa [StatementTree.statement?, allProperties] using h)
    exact ⟨hole.inside (.declaration d)⟩
  | exported word d =>
    obtain ⟨hole⟩ := DeclarationTree.exists_hole true
      (by simpa [StatementTree.statement?, allProperties] using h)
    exact ⟨hole.inside (.exported word d)⟩
  | «import» i => simp [StatementTree.statement?, allProperties] at h
  | module declareWord word name opening body closing =>
    obtain ⟨hole⟩ := Statements.exists_hole (d := body)
      (by simpa [StatementTree.statement?, allProperties, Statement.properties] using h)
    exact ⟨hole.inside (.module declareWord word name opening body closing)⟩
end

end SchemaTypings.Declaration
