import SchemaTypings.Proofs.Derivation.Files
import SchemaTypings.Proofs.Derivation.Soundness
import SchemaTypings.Proofs.Writing.Spelling

/-!
# Texts that are types

`IsType` says of a text that its tokens are those of a type wherever it stands, and that the type
takes up the whole text. Types are put together from words, strings and groups (`IsType.append`,
`IsType.glue`), and a type is balanced, so that it may stand in a group (`IsType.isBalanced`).
-/

namespace SchemaTypings.Declaration

variable {x y : List Char} {T : Nat → List Token → Prop}

/-! ## Balanced tokens -/

/-- Tokens that may stand in a group. -/
def Balances (ts : List Token) : Prop :=
  ∀ before : Balanced, ∃ after : Balanced, after.yield = before.yield ++ ts

theorem Balances.nil : Balances [] :=
  fun before => ⟨before, (List.append_nil _).symm⟩

theorem Balances.append {ts us : List Token} (h : Balances ts) (h' : Balances us) :
    Balances (ts ++ us) := by
  intro before
  obtain ⟨middle, hmiddle⟩ := h before
  obtain ⟨after, hafter⟩ := h' middle
  exact ⟨after, by rw [hafter, hmiddle, List.append_assoc]⟩

theorem Balances.token {t : Token} (h : t.kind ∈ balancedKinds) : Balances [t] :=
  fun before => ⟨.more before (.token ⟨t, h⟩), by simp [Balanced.yield, BalancedItem.yield]⟩

/-- Balanced tokens in brackets are balanced. -/
theorem Balances.group {ts : List Token} (h : Balances ts) (b : Bracket) (opening : Leaf [b.opening])
    (closing : Leaf [b.closing]) : Balances (opening.token :: ts ++ [closing.token]) := by
  intro before
  obtain ⟨inside, hinside⟩ := h .empty
  refine ⟨.more before (.group b opening inside closing), ?_⟩
  simp [Balanced.yield, BalancedItem.yield, hinside]

theorem Group.balances {b : Bracket} (g : Group b) : Balances g.yield :=
  fun before => ⟨.more before (.group b g.opening g.inside g.closing), by
    simp [Balanced.yield, BalancedItem.yield, Group.yield]⟩

theorem Leaf.balances {kinds : List Kind} (l : Leaf kinds) (h : kinds ⊆ balancedKinds) :
    Balances [l.token] :=
  .token (h l.kind_mem)

theorem balances_optional {kinds : List Kind} (l : Option (Leaf kinds))
    (h : kinds ⊆ balancedKinds) : Balances (optionalYield l) := by
  cases l with
  | none => exact .nil
  | some l => exact l.balances h

theorem MemberHead.balances (head : MemberHead) : Balances head.yield := by
  have hname : nameKinds ⊆ balancedKinds := by decide
  have hmark : [Kind.question] ⊆ balancedKinds := by decide
  cases head with
  | property name mark => exact (name.balances hname).append (balances_optional mark hmark)
  | method name mark parameters =>
    exact ((name.balances hname).append (balances_optional mark hmark)).append parameters.balances
  | call parameters => exact parameters.balances
  | index key mark => exact key.balances.append (balances_optional mark hmark)

mutual
/-- The tokens of a type may stand in a group. -/
theorem TypeTree.balances (type : TypeTree) : Balances type.yield := by
  cases type with
  | item i => exact i.balances
  | more before i => exact before.balances.append i.balances

theorem TypeItem.balances (i : TypeItem) : Balances i.yield := by
  cases i with
  | token t => exact t.balances (by decide)
  | group b hb g => exact g.balances
  | object o => exact o.balances

theorem ObjectType.balances (o : ObjectType) : Balances o.yield := by
  cases o with
  | mk opening members closing => exact members.balances.group .brace opening closing

theorem Members.balances (m : Members) : Balances m.yield := by
  cases m with
  | separated list => exact list.balances
  | last list member => exact list.balances.append member.balances

theorem MemberList.balances (list : MemberList) : Balances list.yield := by
  cases list with
  | empty => exact .nil
  | more before member separator =>
    exact (before.balances.append member.balances).append (separator.balances (by decide))

theorem MemberTree.balances (m : MemberTree) : Balances m.yield := by
  cases m with
  | mk head colon type =>
    exact head.balances.append ((colon.balances (by decide)).append type.balances)
end

/-- A text that may stand in a group. -/
def IsBalanced (x : List Char) : Prop :=
  Spells x fun _ ts => Balances ts

theorem IsBalanced.append (h : IsBalanced x) (h' : IsBalanced y) (hparted : Parted x y) :
    IsBalanced (x ++ y) :=
  (Spells.append h h' hparted).imp fun _ ts => by
    rintro ⟨us, vs, rfl, hus, hvs⟩
    exact hus.append hvs

/-- A text with one token that may stand in a group. -/
theorem isBalanced_single {k : Kind} (h : Spells x (Single k y)) (hk : k ∈ balancedKinds) :
    IsBalanced x :=
  h.imp fun _ ts => by
    rintro ⟨l, rfl, -⟩
    exact l.balances (by simpa using hk)

/-- A text that is a group in brackets. -/
def IsGroup (b : Bracket) (x : List Char) : Prop :=
  Spells x fun offset ts => ∃ g : Group b, g.yield = ts ∧ g.opening.token.offset = offset ∧
    g.closing.token.stop = offset + x.length

/-- The characters that open and close a group. -/
def Bracket.chars : Bracket → Char × Char
  | brace => ('\x7b', '\x7d')
  | paren => ('(', ')')
  | square => ('[', ']')
  | angle => ('<', '>')

theorem Bracket.spells_opening (b : Bracket) :
    Spells [b.chars.1] (Single b.opening [b.chars.1]) := by
  cases b <;> exact spells_sign (by decide)

theorem Bracket.spells_closing (b : Bracket) :
    Spells [b.chars.2] (Single b.closing [b.chars.2]) := by
  cases b <;> exact spells_sign (by decide)

theorem Bracket.not_isIdentifierPart (b : Bracket) :
    isIdentifierPart b.chars.1 = false ∧ isIdentifierPart b.chars.2 = false := by
  cases b <;> exact ⟨by decide, by decide⟩

/-- A balanced text in brackets is a group. -/
theorem IsBalanced.isGroup (h : IsBalanced x) (b : Bracket) :
    IsGroup b (b.chars.1 :: x ++ [b.chars.2]) := by
  have hopen : Parted [b.chars.1] x :=
    parted_of_last (by simpa using b.not_isIdentifierPart.1) x
  have hclose : Parted ([b.chars.1] ++ x) [b.chars.2] :=
    parted_of_head _ (by simpa using b.not_isIdentifierPart.2)
  refine ((b.spells_opening.append h hopen).append b.spells_closing hclose).imp fun offset ts => ?_
  rintro ⟨_, _, rfl, ⟨_, us, rfl, ⟨opening, rfl, -, hstart⟩, hus⟩, ⟨closing, rfl, htext, hstop⟩⟩
  obtain ⟨inside, hinside⟩ := hus .empty
  refine ⟨⟨opening, inside, closing⟩, ?_, hstart, ?_⟩
  · simp [Group.yield, hinside, Balanced.yield]
  · rw [stop_of_text htext, hstop]
    simp
    omega

/-- A group may stand in a group. -/
theorem IsGroup.isBalanced {b : Bracket} (h : IsGroup b x) : IsBalanced x :=
  h.imp fun _ ts => by
    rintro ⟨g, rfl, -⟩
    exact g.balances

/-! ## Types -/

/-- A type that goes on a run of items, if any, with the tokens of a text of `n` characters at an
offset. -/
structure GoesOn (before : Option TypeTree) (offset n : Nat) (ts : List Token) (after : TypeTree) :
    Prop where
  yield_eq : after.yield = runYield before ++ ts
  names : ∀ t ∈ after.names, (∃ run ∈ before, t ∈ run.names) ∨ t.IsReadable
  start_eq : after.start = (before.map TypeTree.start).getD offset
  stop_eq : after.stop = offset + n
  literal_eq : before.isSome → after.literal = none

/-- A text that is a type wherever it stands, and takes up all of it. -/
def IsType (x : List Char) : Prop :=
  Spells x fun offset ts => ∀ before, ∃ after, GoesOn before offset x.length ts after

/-- A type goes on with an item. -/
theorem GoesOn.of_item (before : Option TypeTree) {i : TypeItem} {offset n : Nat}
    (hstart : i.start = offset) (hstop : i.stop = offset + n)
    (hnames : ∀ t ∈ i.names, t.IsReadable) :
    GoesOn before offset n i.yield (TypeTree.extend before i) := by
  cases before with
  | none =>
    exact ⟨rfl, fun t ht => .inr (hnames t ht), hstart, hstop, fun h => absurd h (by simp)⟩
  | some run =>
    refine ⟨rfl, fun t ht => ?_, rfl, hstop, fun _ => rfl⟩
    rcases List.mem_append.mp ht with ht | ht
    · exact .inl ⟨run, rfl, ht⟩
    · exact .inr (hnames t ht)

/-- A text that is one item of a type. -/
theorem isType_item (h : Spells x fun offset ts => ∃ i : TypeItem, i.yield = ts ∧
    i.start = offset ∧ i.stop = offset + x.length ∧ ∀ t ∈ i.names, t.IsReadable) : IsType x :=
  h.imp fun offset ts => by
    rintro ⟨i, rfl, hstart, hstop, hnames⟩ before
    exact ⟨_, .of_item before hstart hstop hnames⟩

/-- A type goes on with a token. -/
theorem GoesOn.exists_of_single (before : Option TypeTree) {k : Kind} (hk : k ∈ typeKinds)
    {offset : Nat} {ts : List Token} (h : Single k x offset ts) :
    ∃ after, GoesOn before offset x.length ts after := by
  obtain ⟨l, rfl, htext, rfl⟩ := h
  have hkind : l.token.kind ∈ typeKinds := by
    rw [l.kind_eq]
    exact hk
  have hstop : (TypeItem.token ⟨l.token, hkind⟩).stop = l.token.offset + x.length :=
    stop_of_text htext
  exact ⟨_, .of_item before rfl hstop fun t ht => by simp [TypeItem.names] at ht⟩

/-- A token that may stand in a type. -/
theorem isType_single {k : Kind} (h : Spells x (Single k x)) (hk : k ∈ typeKinds) : IsType x :=
  h.imp fun _ _ hts before => GoesOn.exists_of_single before hk hts

/-- A group is a type, except for one in braces. -/
theorem IsGroup.isType {b : Bracket} (h : IsGroup b x) (hb : b ≠ .brace) : IsType x :=
  isType_item <| h.imp fun offset ts => by
    rintro ⟨g, rfl, hstart, hstop⟩
    exact ⟨.group b hb g, rfl, hstart, hstop, fun t ht => by simp [TypeItem.names] at ht⟩

/-- A type that goes on twice. -/
theorem GoesOn.trans {before : Option TypeTree} {offset offset' n m total : Nat}
    {us vs : List Token} {middle after : TypeTree} (h : GoesOn before offset n us middle)
    (h' : GoesOn (some middle) offset' m vs after) (htotal : offset' + m = offset + total) :
    GoesOn before offset total (us ++ vs) after where
  yield_eq := by rw [h'.yield_eq, runYield_some, h.yield_eq, List.append_assoc]
  names t ht := by
    rcases h'.names t ht with ⟨run, hrun, ht⟩ | ht
    · obtain rfl := Option.mem_some_iff.mp hrun
      exact h.names t ht
    · exact .inr ht
  start_eq := h'.start_eq.trans h.start_eq
  stop_eq := h'.stop_eq.trans htotal
  literal_eq _ := h'.literal_eq rfl

/-- Two types side by side. -/
theorem IsType.append (h : IsType x) (h' : IsType y) (hparted : Parted x y) : IsType (x ++ y) :=
  (Spells.append h h' hparted).imp fun offset ts => by
    rintro ⟨us, vs, rfl, hus, hvs⟩ before
    obtain ⟨middle, hmiddle⟩ := hus before
    obtain ⟨after, hafter⟩ := hvs (some middle)
    exact ⟨after, hmiddle.trans hafter (by rw [List.length_append, Nat.add_assoc])⟩

/-- A type may stand in a group. -/
theorem IsType.isBalanced (h : IsType x) : IsBalanced x :=
  h.imp fun _ ts hts => by
    obtain ⟨type, htype⟩ := hts none
    have hyield : type.yield = ts := htype.yield_eq
    exact hyield ▸ type.balances

/-- Two types with a blank between them. -/
theorem IsType.spaced (h : IsType x) (h' : IsType y) : IsType (x ++ ' ' :: y) := by
  have hblank : Spells [' '] Silent := spells_blanks (by simp; decide)
  have hfirst := Spells.append_silent h hblank (parted_of_head x (by simp; decide))
  have hboth := hfirst.append h' (parted_of_last (by simp; decide) y)
  rw [List.append_assoc, List.singleton_append] at hboth
  refine hboth.imp fun offset ts => ?_
  rintro ⟨us, vs, rfl, hus, hvs⟩ before
  obtain ⟨middle, hmiddle⟩ := hus before
  obtain ⟨after, hafter⟩ := hvs (some middle)
  exact ⟨after, hmiddle.trans hafter (by simp; omega)⟩

/-! ## Words and groups in types -/

/-- A word that is an identifier: none of the words that open declarations. -/
def IsIdentifier (x : List Char) : Prop :=
  IsWord x ∧ Kind.ofWord (String.ofList x) = .identifier

instance (x : List Char) : Decidable (IsWord x) := inferInstanceAs (Decidable (_ ∧ _))

instance (x : List Char) : Decidable (IsIdentifier x) := inferInstanceAs (Decidable (_ ∧ _))

/-- An identifier is one token. -/
theorem IsIdentifier.spells (h : IsIdentifier x) : Spells x (Single .identifier x) :=
  h.2 ▸ h.1.spells

theorem IsIdentifier.isType (h : IsIdentifier x) : IsType x :=
  isType_single h.spells (by decide)

/-- A point with an identifier behind it goes on a type. -/
theorem IsIdentifier.isType_dot (h : IsIdentifier x) : IsType ('.' :: x) := by
  have hspells := h.1.spells_dot
  rw [h.2] at hspells
  refine hspells.imp fun offset ts => ?_
  rintro ⟨us, vs, rfl, hdot, hname⟩ before
  obtain ⟨middle, hmiddle⟩ := GoesOn.exists_of_single before (by decide) hdot
  obtain ⟨after, hafter⟩ := GoesOn.exists_of_single (some middle) (by decide) hname
  exact ⟨after, hmiddle.trans hafter (by simp; omega)⟩

/-- A string in double quotes is a type. -/
theorem isType_string (h : StringRest '"' x) : IsType ('"' :: x) :=
  isType_single (spells_string h) (by decide)

/-- A sign that may stand in a type is a type of its own. -/
theorem isType_pipe : IsType ['|'] :=
  isType_single (spells_sign (by decide)) (by decide)

/-- A balanced text in brackets behind a type. -/
theorem IsType.group (h : IsType x) (h' : IsBalanced y) {b : Bracket} (hb : b ≠ .brace) :
    IsType (x ++ (b.chars.1 :: y ++ [b.chars.2])) :=
  h.append ((h'.isGroup b).isType hb) (parted_of_head x (by simpa using b.not_isIdentifierPart.1))

/-- An empty text may stand in a group. -/
theorem isBalanced_nil : IsBalanced [] :=
  spells_nil.imp fun _ _ h => h ▸ .nil

/-- Two balanced texts with a comma or a colon between them. -/
theorem IsBalanced.glue (h : IsBalanced x) {c : Char} (hc : c ∈ [',', ':']) (h' : IsBalanced y) :
    IsBalanced (x ++ c :: ' ' :: y) := by
  have hsign : IsBalanced [c, ' '] ∧ isIdentifierPart c = false := by
    have hblank : Spells [' '] Silent := spells_blanks (by simp; decide)
    simp only [List.mem_cons, List.not_mem_nil, or_false] at hc
    obtain rfl | rfl := hc
    · have hcomma : Spells [','] (Single .comma [',']) := spells_sign (by decide)
      exact ⟨isBalanced_single (hcomma.append_silent hblank (parted_of_last (by simp; decide) _))
        (by decide), by decide⟩
    · have hcolon : Spells [':'] (Single .colon [':']) := spells_sign (by decide)
      exact ⟨isBalanced_single (hcolon.append_silent hblank (parted_of_last (by simp; decide) _))
        (by decide), by decide⟩
  exact h.append (hsign.1.append h' (parted_of_last (by simp; decide) y))
    (parted_of_head x (by simpa using hsign.2))

theorem IsBalanced.comma (h : IsBalanced x) (h' : IsBalanced y) :
    IsBalanced (x ++ ',' :: ' ' :: y) :=
  h.glue (by decide) h'

theorem IsBalanced.colon (h : IsBalanced x) (h' : IsBalanced y) :
    IsBalanced (x ++ ':' :: ' ' :: y) :=
  h.glue (by decide) h'

/-- A type with a type argument. -/
theorem IsType.generic (h : IsType x) (h' : IsBalanced y) : IsType (x ++ '<' :: (y ++ ['>'])) :=
  h.group h' (b := .angle) (by decide)

/-- A type of mongoose. -/
theorem isType_mongoose (h : IsIdentifier x) : IsType ("mongoose.".toList ++ x) := by
  have hmongoose : IsIdentifier "mongoose".toList := by decide
  simpa using hmongoose.isType.append h.isType_dot (parted_of_head _ (by simp; decide))

/-- All words that open declarations are written in small letters. -/
theorem words_lower :
    Kind.words.all (fun w => w.1.toList.all fun c => 'a' ≤ c && c ≤ 'z') = true := by
  decide

/-- A word with anything else than small letters is an identifier. -/
theorem IsWord.isIdentifier (h : IsWord x) {c : Char} (hc : c ∈ x)
    (hlower : ('a' ≤ c && c ≤ 'z') = false) : IsIdentifier x := by
  refine ⟨h, ?_⟩
  unfold Kind.ofWord
  cases hlookup : Kind.words.lookup (String.ofList x) with
  | none => rfl
  | some k =>
    obtain ⟨before, after, hwords, -⟩ := List.lookup_eq_some_iff.mp hlookup
    have hmem : (String.ofList x, k) ∈ Kind.words := by simp [hwords]
    have hall := List.all_eq_true.mp (List.all_eq_true.mp words_lower _ hmem)
    rw [String.toList_ofList] at hall
    exact absurd (hall c hc) (by simp [hlower])

/-- A word with an ending that has a capital is an identifier. -/
theorem IsWord.isIdentifier_append (h : IsWord x) (hpart : ∀ c ∈ y, isIdentifierPart c)
    (hlower : y.all (fun c => 'a' ≤ c && c ≤ 'z') = false) : IsIdentifier (x ++ y) := by
  obtain ⟨⟨c, hc, hstart⟩, hall⟩ := h
  have hword : IsWord (x ++ y) := by
    refine ⟨⟨c, by rw [List.head?_append, hc]; rfl, hstart⟩, fun d hd => ?_⟩
    rcases List.mem_append.mp hd with hd | hd
    · exact hall d hd
    · exact hpart d hd
  obtain ⟨d, hd, hcapital⟩ := List.all_eq_false.mp hlower
  exact hword.isIdentifier (List.mem_append_right x hd) (by simpa using hcapital)

end SchemaTypings.Declaration
