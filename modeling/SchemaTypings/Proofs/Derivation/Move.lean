import SchemaTypings.Proofs.Derivation.Files
import SchemaTypings.Proofs.Lexing.Placement
import SchemaTypings.Proofs.Outline

/-!
# Moving tokens

When the text around them changes, tokens get other offsets and lines and stay the same otherwise.
A `Relocation` says which tokens they become, and moves whole derivations with them. A `Move` is the
relocation behind a replaced text: what is read off a derivation that is moved by it is what was
read off the derivation before, at the new offsets.
-/

namespace SchemaTypings.Declaration

/-- Which tokens become of tokens whose places change. -/
structure Relocation where
  token : Token → Token
  token_kind : ∀ t, (token t).kind = t.kind
  token_text : ∀ t, (token t).text = t.text

namespace Relocation

variable (m : Relocation)

attribute [simp] token_kind token_text

@[simp] theorem token_name (t : Token) : (m.token t).name = t.name := by
  simp [Token.name]

/-- A leaf at its new place. -/
def leaf {kinds : List Kind} (l : Leaf kinds) : Leaf kinds :=
  ⟨m.token l.token, (m.token_kind l.token).symm ▸ l.kind_mem⟩

@[simp] theorem leaf_token {kinds : List Kind} (l : Leaf kinds) :
    (m.leaf l).token = m.token l.token := rfl

/-- The tokens of a leaf that may be left out. -/
@[simp] theorem optionalYield_map {kinds : List Kind} (l : Option (Leaf kinds)) :
    optionalYield (l.map m.leaf) = (optionalYield l).map m.token := by
  cases l <;> rfl

/-- A name can be read at its new place as before. -/
theorem isReadable {t : Token} (h : t.IsReadable) : (m.token t).IsReadable := by
  simpa [Token.IsReadable] using h

end Relocation

/-- Where the tokens from an offset and a line on come to stand. -/
structure Move where
  fromOffset : Nat
  toOffset : Nat
  fromLine : Nat
  toLine : Nat

namespace Move

variable (m : Move)

/-- The new offset of an offset. -/
def offset (n : Nat) : Nat :=
  n - m.fromOffset + m.toOffset

/-- The token at its new place. -/
def token (t : Token) : Token :=
  { t with offset := m.offset t.offset, line := t.line - m.fromLine + m.toLine }

@[simp] theorem token_kind (t : Token) : (m.token t).kind = t.kind := rfl

@[simp] theorem token_text (t : Token) : (m.token t).text = t.text := rfl

@[simp] theorem token_offset (t : Token) : (m.token t).offset = m.offset t.offset := rfl

@[simp] theorem token_name (t : Token) : (m.token t).name = t.name := rfl

/-- A moved token ends at the new offset of its end. -/
theorem token_stop {t : Token} (h : m.fromOffset ≤ t.offset) :
    (m.token t).stop = m.offset t.stop := by
  simp only [Token.stop, token_offset, token_text, offset]
  omega

/-- The property with its type at its new place. -/
def property (p : Property) : Property :=
  { p with typeStart := m.offset p.typeStart, typeEnd := m.offset p.typeEnd }

/-- The same pieces at another place are the same tokens, moved. -/
theorem place_eq (ps : List Piece) :
    place m.toOffset m.toLine ps = (place m.fromOffset m.fromLine ps).map m.token := by
  suffices h : ∀ i j, place (m.toOffset + i) (m.toLine + j) ps =
      (place (m.fromOffset + i) (m.fromLine + j) ps).map m.token from h 0 0
  induction ps with
  | nil => simp [place]
  | cons p ps ih =>
    intro i j
    have hrest := ih (i + p.chars.length) (j + p.chars.count '\n')
    cases hkind : p.kind with
    | none => simp [place, hkind, Nat.add_assoc, hrest]
    | some k =>
      have hoffset : m.offset (m.fromOffset + i) = m.toOffset + i := by simp [offset]; omega
      simp [place, hkind, Nat.add_assoc, hrest, token, hoffset]
      omega

/-- From behind some pieces of a file to behind some of another one. -/
def between (ps qs : List Piece) : Move :=
  ⟨(textOf ps).length, (textOf qs).length, 1 + (textOf ps).count '\n',
    1 + (textOf qs).count '\n'⟩

/-- Pieces that stand behind others are moved when these are replaced. -/
theorem placeBehind_eq (ps qs rs : List Piece) :
    placeBehind qs rs = (placeBehind ps rs).map (between ps qs).token :=
  (between ps qs).place_eq rs

/-- The tokens at their new places. -/
def relocation : Relocation :=
  ⟨m.token, fun _ => rfl, fun _ => rfl⟩

@[simp] theorem relocation_token : m.relocation.token = m.token := rfl

end Move

instance : Coe Move Relocation :=
  ⟨Move.relocation⟩

section

variable (m : Relocation)

/-! ## Moved derivations -/

mutual
/-- A balanced run at its new place. -/
def Balanced.move : Balanced → Balanced
  | .empty => .empty
  | .more before item => .more before.move item.move
  termination_by structural b => b

/-- An item of a balanced run at its new place. -/
def BalancedItem.move : BalancedItem → BalancedItem
  | .token t => .token (m.leaf t)
  | .group b opening inside closing => .group b (m.leaf opening) inside.move (m.leaf closing)
  termination_by structural i => i
end

/-- A group at its new place. -/
def Group.move {b : Bracket} (g : Group b) : Group b :=
  ⟨m.leaf g.opening, g.inside.move m, m.leaf g.closing⟩

/-- What stands in front of a colon, at its new place. -/
def MemberHead.move : MemberHead → MemberHead
  | .property name mark => .property (m.leaf name) (mark.map m.leaf)
  | .method name mark parameters =>
    .method (m.leaf name) (mark.map m.leaf) (parameters.move m)
  | .call parameters => .call (parameters.move m)
  | .index key mark => .index (key.move m) (mark.map m.leaf)

mutual
/-- An object type at its new place. -/
def ObjectType.move : ObjectType → ObjectType
  | .mk opening members closing => .mk (m.leaf opening) members.move (m.leaf closing)
  termination_by structural o => o

/-- Members at their new place. -/
def Members.move : Members → Members
  | .separated list => .separated list.move
  | .last list member => .last list.move member.move
  termination_by structural m => m

/-- Members and their separators at their new place. -/
def MemberList.move : MemberList → MemberList
  | .empty => .empty
  | .more before member separator => .more before.move member.move (m.leaf separator)
  termination_by structural l => l

/-- A member at its new place. -/
def MemberTree.move : MemberTree → MemberTree
  | .mk head colon type => .mk (head.move m) (m.leaf colon) type.move
  termination_by structural m => m

/-- A type at its new place. -/
def TypeTree.move : TypeTree → TypeTree
  | .item i => .item i.move
  | .more before i => .more before.move i.move
  termination_by structural t => t

/-- An item of a type at its new place. -/
def TypeItem.move : TypeItem → TypeItem
  | .token t => .token (m.leaf t)
  | .group b h g => .group b h (g.move m)
  | .object o => .object o.move
  termination_by structural i => i
end

/-- A name with dots at its new place. -/
def QualifiedName.move : QualifiedName → QualifiedName
  | .name n => .name (m.leaf n)
  | .dotted before dot n => .dotted before.move (m.leaf dot) (m.leaf n)

/-- A reference at its new place. -/
def Reference.move (r : Reference) : Reference :=
  ⟨r.name.move m, r.arguments.map (Group.move m)⟩

/-- References at their new place. -/
def References.move : References → References
  | .one r => .one (r.move m)
  | .more before comma r => .more before.move (m.leaf comma) (r.move m)

/-- What an interface extends, at its new place. -/
def Heritage.move (h : Heritage) : Heritage :=
  ⟨m.leaf h.word, h.references.move m⟩

/-- An interface at its new place. -/
def InterfaceTree.move (i : InterfaceTree) : InterfaceTree :=
  ⟨m.leaf i.word, m.leaf i.name, i.parameters.map (Group.move m), i.heritage.map (Heritage.move m),
    i.body.move m⟩

/-- An alias at its new place. -/
def AliasTree.move (a : AliasTree) : AliasTree :=
  ⟨m.leaf a.word, m.leaf a.name, a.parameters.map (Group.move m), m.leaf a.equals, a.type.move m,
    a.semicolon.map m.leaf⟩

/-- A declaration at its new place. -/
def DeclarationTree.move : DeclarationTree → DeclarationTree
  | .interface i => .interface (i.move m)
  | .alias a => .alias (a.move m)

/-- An item of an import at its new place. -/
def ImportItem.move : ImportItem → ImportItem
  | .token t => .token (m.leaf t)
  | .group b h g => .group b h (g.move m)

/-- What is imported, at its new place. -/
def ImportClause.move : ImportClause → ImportClause
  | .item i => .item (i.move m)
  | .more before i => .more before.move (i.move m)

/-- An import at its new place. -/
def ImportTree.move (i : ImportTree) : ImportTree :=
  ⟨m.leaf i.word, i.typeWord.map m.leaf, i.clause.move m, i.semicolon.map m.leaf⟩

mutual
/-- Statements at their new place. -/
def Statements.move : Statements → Statements
  | .empty => .empty
  | .more before s => .more before.move s.move
  termination_by structural s => s

/-- A statement at its new place. -/
def StatementTree.move : StatementTree → StatementTree
  | .declaration d => .declaration (d.move m)
  | .exported word d => .exported (m.leaf word) (d.move m)
  | .import i => .import (i.move m)
  | .module declareWord word name opening body closing =>
    .module (m.leaf declareWord) (m.leaf word) (m.leaf name) (m.leaf opening) body.move
      (m.leaf closing)
  termination_by structural s => s
end

/-! ## The tokens of a moved derivation -/

mutual
@[simp] theorem Balanced.yield_move (b : Balanced) :
    (b.move m).yield = b.yield.map m.token := by
  cases b with
  | empty => rfl
  | more before item => simp [Balanced.move, Balanced.yield, before.yield_move, item.yield_move]

@[simp] theorem BalancedItem.yield_move (i : BalancedItem) :
    (i.move m).yield = i.yield.map m.token := by
  cases i with
  | token t => rfl
  | group b opening inside closing =>
    simp [BalancedItem.move, BalancedItem.yield, inside.yield_move]
end

@[simp] theorem Group.yield_move {b : Bracket} (g : Group b) :
    (g.move m).yield = g.yield.map m.token := by
  simp [Group.move, Group.yield]

@[simp] theorem optionalGroupYield_move {b : Bracket} (g : Option (Group b)) :
    optionalGroupYield (g.map (Group.move m)) = (optionalGroupYield g).map m.token := by
  cases g <;> simp

@[simp] theorem MemberHead.yield_move (h : MemberHead) :
    (h.move m).yield = h.yield.map m.token := by
  cases h <;> simp [MemberHead.move, MemberHead.yield]

mutual
@[simp] theorem ObjectType.yield_move (o : ObjectType) :
    (o.move m).yield = o.yield.map m.token := by
  cases o with
  | mk opening members closing =>
    simp [ObjectType.move, ObjectType.yield, members.yield_move]

@[simp] theorem Members.yield_move (ms : Members) :
    (ms.move m).yield = ms.yield.map m.token := by
  cases ms with
  | separated list => simp [Members.move, Members.yield, list.yield_move]
  | last list member => simp [Members.move, Members.yield, list.yield_move, member.yield_move]

@[simp] theorem MemberList.yield_move (l : MemberList) :
    (l.move m).yield = l.yield.map m.token := by
  cases l with
  | empty => rfl
  | more before member separator =>
    simp [MemberList.move, MemberList.yield, before.yield_move, member.yield_move]

@[simp] theorem MemberTree.yield_move (mt : MemberTree) :
    (mt.move m).yield = mt.yield.map m.token := by
  cases mt with
  | mk head colon type => simp [MemberTree.move, MemberTree.yield, type.yield_move]

@[simp] theorem TypeTree.yield_move (t : TypeTree) :
    (t.move m).yield = t.yield.map m.token := by
  cases t with
  | item i => simp [TypeTree.move, TypeTree.yield, i.yield_move]
  | more before i => simp [TypeTree.move, TypeTree.yield, before.yield_move, i.yield_move]

@[simp] theorem TypeItem.yield_move (i : TypeItem) :
    (i.move m).yield = i.yield.map m.token := by
  cases i with
  | token t => rfl
  | group b h g => simp [TypeItem.move, TypeItem.yield]
  | object o => simp [TypeItem.move, TypeItem.yield, o.yield_move]
end

@[simp] theorem QualifiedName.yield_move (n : QualifiedName) :
    (n.move m).yield = n.yield.map m.token := by
  induction n with
  | name n => rfl
  | dotted before dot n ih => simp [QualifiedName.move, QualifiedName.yield, ih]

@[simp] theorem Reference.yield_move (r : Reference) :
    (r.move m).yield = r.yield.map m.token := by
  simp [Reference.move, Reference.yield]

@[simp] theorem References.yield_move (r : References) :
    (r.move m).yield = r.yield.map m.token := by
  induction r with
  | one r => simp [References.move, References.yield]
  | more before comma r ih => simp [References.move, References.yield, ih]

@[simp] theorem heritageYield_move (h : Option Heritage) :
    heritageYield (h.map (Heritage.move m)) = (heritageYield h).map m.token := by
  cases h <;> simp [heritageYield, Heritage.move]

@[simp] theorem DeclarationTree.yield_move (d : DeclarationTree) :
    (d.move m).yield = d.yield.map m.token := by
  cases d <;>
    simp [DeclarationTree.move, DeclarationTree.yield, InterfaceTree.move, InterfaceTree.yield,
      AliasTree.move, AliasTree.yield]

@[simp] theorem ImportItem.yield_move (i : ImportItem) :
    (i.move m).yield = i.yield.map m.token := by
  cases i <;> simp [ImportItem.move, ImportItem.yield]

@[simp] theorem ImportClause.yield_move (c : ImportClause) :
    (c.move m).yield = c.yield.map m.token := by
  induction c with
  | item i => simp [ImportClause.move, ImportClause.yield]
  | more before i ih => simp [ImportClause.move, ImportClause.yield, ih]

@[simp] theorem ImportTree.yield_move (i : ImportTree) :
    (i.move m).yield = i.yield.map m.token := by
  simp [ImportTree.move, ImportTree.yield]

mutual
@[simp] theorem Statements.yield_move (d : Statements) :
    (d.move m).yield = d.yield.map m.token := by
  cases d with
  | empty => rfl
  | more before s => simp [Statements.move, Statements.yield, before.yield_move, s.yield_move]

@[simp] theorem StatementTree.yield_move (s : StatementTree) :
    (s.move m).yield = s.yield.map m.token := by
  cases s with
  | declaration d => simp [StatementTree.move, StatementTree.yield]
  | exported word d => simp [StatementTree.move, StatementTree.yield]
  | «import» i => simp [StatementTree.move, StatementTree.yield]
  | module declareWord word name opening body closing =>
    simp [StatementTree.move, StatementTree.yield, body.yield_move]
end

/-! ## What is read off a moved derivation -/

@[simp] theorem MemberHead.names_move (h : MemberHead) :
    (h.move m).names = h.names.map m.token := by
  cases h <;> rfl

mutual
@[simp] theorem ObjectType.names_move (o : ObjectType) :
    (o.move m).names = o.names.map m.token := by
  cases o with
  | mk opening members closing => simp [ObjectType.move, ObjectType.names, members.names_move]

@[simp] theorem Members.names_move (ms : Members) :
    (ms.move m).names = ms.names.map m.token := by
  cases ms with
  | separated list => simp [Members.move, Members.names, list.names_move]
  | last list member => simp [Members.move, Members.names, list.names_move, member.names_move]

@[simp] theorem MemberList.names_move (l : MemberList) :
    (l.move m).names = l.names.map m.token := by
  cases l with
  | empty => rfl
  | more before member separator =>
    simp [MemberList.move, MemberList.names, before.names_move, member.names_move]

@[simp] theorem MemberTree.names_move (mt : MemberTree) :
    (mt.move m).names = mt.names.map m.token := by
  cases mt with
  | mk head colon type => simp [MemberTree.move, MemberTree.names, type.names_move]

@[simp] theorem TypeTree.names_move (t : TypeTree) :
    (t.move m).names = t.names.map m.token := by
  cases t with
  | item i => simp [TypeTree.move, TypeTree.names, i.names_move]
  | more before i => simp [TypeTree.move, TypeTree.names, before.names_move, i.names_move]

@[simp] theorem TypeItem.names_move (i : TypeItem) :
    (i.move m).names = i.names.map m.token := by
  cases i with
  | token t => rfl
  | group b h g => rfl
  | object o => simp [TypeItem.move, TypeItem.names, o.names_move]
end

@[simp] theorem DeclarationTree.names_move (d : DeclarationTree) :
    (d.move m).names = d.names.map m.token := by
  cases d <;> simp [DeclarationTree.move, DeclarationTree.names, InterfaceTree.move, AliasTree.move]

mutual
@[simp] theorem Statements.names_move (d : Statements) :
    (d.move m).names = d.names.map m.token := by
  cases d with
  | empty => rfl
  | more before s => simp [Statements.move, Statements.names, before.names_move, s.names_move]

@[simp] theorem StatementTree.names_move (s : StatementTree) :
    (s.move m).names = s.names.map m.token := by
  cases s with
  | declaration d => simp [StatementTree.move, StatementTree.names]
  | exported word d => simp [StatementTree.move, StatementTree.names]
  | «import» i => rfl
  | module declareWord word name opening body closing =>
    simp [StatementTree.move, StatementTree.names, body.names_move]
end

end

variable (m : Move)

/-- The tokens stand behind the place from which on the move is made. -/
def Move.Fits (ts : List Token) : Prop :=
  ∀ t ∈ ts, m.fromOffset ≤ t.offset

variable {m}

theorem Move.Fits.mono {ts us : List Token} (h : m.Fits us) (hsub : ts ⊆ us) : m.Fits ts :=
  fun t ht => h t (hsub ht)

@[simp] theorem TypeItem.start_move (i : TypeItem) : (i.move m).start = m.offset i.start := by
  cases i with
  | token t => rfl
  | group b h g => rfl
  | object o => cases o; rfl

@[simp] theorem TypeTree.start_move (t : TypeTree) : (t.move m).start = m.offset t.start := by
  cases t with
  | item i => simp [TypeTree.move, TypeTree.start]
  | more before i => exact before.start_move

theorem TypeItem.stop_move {i : TypeItem} (h : m.Fits i.yield) :
    (i.move m).stop = m.offset i.stop := by
  cases i with
  | token t => exact m.token_stop (h _ (by simp [TypeItem.yield]))
  | group b hb g => exact m.token_stop (h _ (by simp [TypeItem.yield, Group.yield]))
  | object o =>
    cases o with
    | mk opening members closing =>
      exact m.token_stop (h _ (by simp [TypeItem.yield, ObjectType.yield]))

theorem TypeTree.stop_move {t : TypeTree} (h : m.Fits t.yield) :
    (t.move m).stop = m.offset t.stop := by
  cases t with
  | item i => exact TypeItem.stop_move h
  | more before i => exact TypeItem.stop_move (h.mono (by simp [TypeTree.yield]))

theorem MemberTree.property?_move (mt : MemberTree) (h : m.Fits mt.yield) :
    (mt.move m).property? = mt.property?.map m.property := by
  cases mt with
  | mk head colon type =>
    have hstop := TypeTree.stop_move (t := type) (h.mono (by intro t; simp [MemberTree.yield]; grind))
    cases head with
    | property name mark =>
      simp [MemberTree.move, MemberHead.move, MemberTree.property?, Move.property, hstop]
    | _ => rfl

/-- The properties among members with their separators. -/
theorem MemberList.properties_move (l : MemberList) (h : m.Fits l.yield) :
    (l.move m).properties = l.properties.map m.property := by
  cases l with
  | empty => rfl
  | more before member separator =>
    have hbefore := before.properties_move (h.mono (by simp [MemberList.yield]))
    have hmember : (member.move m).property? = member.property?.map m.property :=
      member.property?_move (h.mono (by intro t; simp [MemberList.yield]; grind))
    cases hp : member.property? <;>
      simp [MemberList.move, MemberList.properties, hbefore, hmember, hp]

/-- The properties of an object type. -/
theorem ObjectType.properties_move (o : ObjectType) (h : m.Fits o.yield) :
    (o.move m).properties = o.properties.map m.property := by
  obtain ⟨opening, members, closing⟩ := o
  cases members with
  | separated list =>
    exact list.properties_move
      (h.mono (by intro t; simp [ObjectType.yield, Members.yield]; grind))
  | last list member =>
    have hlist := list.properties_move
      (h.mono (by intro t; simp [ObjectType.yield, Members.yield]; grind))
    have hmember : (member.move m).property? = member.property?.map m.property :=
      member.property?_move
        (h.mono (by intro t; simp [ObjectType.yield, Members.yield]; grind))
    cases hp : member.property? <;>
      simp [ObjectType.move, Members.move, ObjectType.properties, Members.properties, hlist,
        hmember, hp]

/-- The properties of a type that is one object type. -/
theorem TypeTree.literal_move (t : TypeTree) (h : m.Fits t.yield) :
    (t.move m).literal = t.literal.map (List.map m.property) := by
  cases t with
  | item i =>
    cases i with
    | object o => simpa [TypeTree.move, TypeItem.move, TypeTree.literal] using o.properties_move h
    | _ => rfl
  | more before i => rfl

/-- A moved property says the same, with its type at the new place. -/
theorem Move.outline_property (type : Property → String) (p : Property) :
    (m.property p).outline type = p.outline (fun p => type (m.property p)) := rfl

/-- A moved declaration is the same statement with the types at their new places. -/
theorem DeclarationTree.statement_move (d : DeclarationTree) (isExported : Bool)
    (h : m.Fits d.yield) :
    (d.move m).statement isExported = (d.statement isExported).mapProperties m.property := by
  cases d with
  | interface i =>
    have hbody := i.body.properties_move (h.mono (by
      intro t; simp [DeclarationTree.yield, InterfaceTree.yield]; grind))
    simp [DeclarationTree.move, InterfaceTree.move, DeclarationTree.statement,
      Statement.mapProperties, hbody]
  | «alias» a =>
    have htype := a.type.literal_move (h.mono (by
      intro t; simp [DeclarationTree.yield, AliasTree.yield]; grind))
    simp [DeclarationTree.move, AliasTree.move, DeclarationTree.statement,
      Statement.mapProperties, htype]

mutual
/-- Moved statements are the same with the types at their new places. -/
theorem Statements.statements_move (d : Statements) (h : m.Fits d.yield) :
    (d.move m).statements = mapProperties m.property d.statements := by
  cases d with
  | empty => rfl
  | more before s =>
    have hbefore := before.statements_move (h.mono (by simp [Statements.yield]))
    have hs := s.statement?_move (h.mono (by simp [Statements.yield]))
    cases hstatement : s.statement? <;>
      simp [Statements.move, Statements.statements, hbefore, hs, hstatement, mapProperties]

theorem StatementTree.statement?_move (s : StatementTree) (h : m.Fits s.yield) :
    (s.move m).statement? = s.statement?.map (Statement.mapProperties m.property) := by
  cases s with
  | declaration d =>
    simp [StatementTree.move, StatementTree.statement?, d.statement_move false h]
  | exported word d =>
    have hd := d.statement_move true (h.mono (by simp [StatementTree.yield]))
    simp [StatementTree.move, StatementTree.statement?, hd]
  | «import» i => rfl
  | module declareWord word name opening body closing =>
    have hbody := body.statements_move (h.mono (by intro t; simp [StatementTree.yield]; grind))
    simp [StatementTree.move, StatementTree.statement?, Statement.mapProperties, hbody]
end

variable (type : Property → String)

/-- What moved statements say. -/
theorem Statements.outlines_move (d : Statements) (h : m.Fits d.yield) :
    outlines type (d.move m).statements = outlines (fun p => type (m.property p)) d.statements ∧
      allProperties (d.move m).statements = (allProperties d.statements).map m.property := by
  rw [d.statements_move h]
  exact ⟨outlines_mapProperties (m.outline_property type) _, allProperties_mapProperties _⟩

/-- What a moved statement says. -/
theorem StatementTree.outlines_move (s : StatementTree) (h : m.Fits s.yield) :
    outlines type (s.move m).statement?.toList =
        outlines (fun p => type (m.property p)) s.statement?.toList ∧
      allProperties (s.move m).statement?.toList =
        (allProperties s.statement?.toList).map m.property := by
  have hmap : (s.move m).statement?.toList = mapProperties m.property s.statement?.toList := by
    rw [s.statement?_move h]
    cases s.statement? <;> rfl
  rw [hmap]
  exact ⟨outlines_mapProperties (m.outline_property type) _, allProperties_mapProperties _⟩

end SchemaTypings.Declaration
