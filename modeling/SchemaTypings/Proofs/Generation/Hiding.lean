import SchemaTypings.Proofs.Generation.Writable

/-!
# Declarations hidden by enumerated values

Enumerated values are written between double quotes as they are. So a value may end the interface
that it stands in and open a module block, and a value further down may end the block: whatever is
written between the two is declared in the block, and not in the file (`isStatements_hidden`). A
model with such values declares its interfaces there (`isStatements_hidingSchema`).
-/

namespace SchemaTypings

open Declaration

/-- A value that ends its interface, and opens a module block and an interface in it. -/
def openingValue : String :=
  "a\";\n\x7d declare module \"z\" \x7binterface Q \x7b\n  k: \"b"

/-- A value that ends its interface and the block around it, and opens an interface. -/
def closingValue : String :=
  "c\";\n\x7d\x7d interface R \x7b\n  k: \"d"

/-- A member that has one enumerated value. -/
def enumMember (key value : String) (isOptional : Bool) : Member :=
  ⟨key, isOptional, false, .named (enumType [value])⟩

/-- The interface with other members. -/
def Interface.withMembers (i : Interface) (members : List Member) : Interface :=
  { i with members := members }

theorem Interface.eq_withMembers {i : Interface} {members : List Member} (h : i.members = members) :
    i = i.withMembers members := by
  subst h
  rfl

/-- An interface with nothing but a name and members. -/
def Interface.bare (name : String) (members : List Member) : Interface :=
  ⟨"", name, "", members⟩

/-- An interface is read with any members that can be written. -/
theorem Interface.IsHeaded.reads {i : Interface} (h : i.IsHeaded) (shape : Shape)
    (members : List Member) (hmembers : MembersWritable members) :
    (Item.interface shape (i.withMembers members)).Reads :=
  Item.reads_interface shape h.docs h.name h.heritage hmembers

/-- A bare interface is a statement. -/
theorem isStatements_bare (shape : Shape) {name : String} (hname : IsIdentifier name.toList)
    (members : List Member) (hmembers : MembersWritable members) :
    IsStatements (Item.interface shape (.bare name members)).text.toList
      [.interface name false (members.map (·.outline shape 0))] := by
  have hdocs : IsDocs "" := ⟨spells_nil, by decide⟩
  have hreads := Item.reads_interface shape (i := .bare name members) hdocs hname isHeritage_nil
    hmembers
  exact IsDeclaration.isStatements hreads.2

/-! ## Quotable values -/

theorem isQuotable_letters : ∀ letter ∈ ["a", "b", "c", "d"], IsQuotable letter := by
  unfold IsQuotable
  decide

theorem isWritable_enumMember {key value : String} (hkey : IsKey key) (hvalue : IsQuotable value)
    (isOptional : Bool) : (enumMember key value isOptional).IsWritable :=
  ⟨⟨hkey.1, hkey.isPlainName⟩,
    isType_enumType (List.cons_ne_nil _ _) (List.forall_mem_singleton.mpr hvalue)⟩

theorem outline_enumMember (shape : Shape) (key value : String) (isOptional : Bool) :
    (enumMember key value isOptional).outline shape 0 = ⟨key, isOptional, enumType [value]⟩ :=
  rfl

/-! ## Values that are not -/

section Rendering

variable (shape : Shape) (i : Interface)

theorem propertyKey_letter : propertyKey "k" = "k" := by
  decide

/-- With the opening value a block begins behind the interface. -/
theorem render_openingValue :
    (Item.interface shape (i.withMembers [enumMember "text" openingValue true])).render false =
      (Item.interface shape (i.withMembers [enumMember "text" "a" true])).render false ++
        (" declare module \"z\" \x7b" ++
          (Item.interface shape (.bare "Q" [enumMember "k" "b" false])).text) := by
  simp [Interface.withMembers, Interface.bare, Item.interface, Item.render, Item.text,
    interfaceText, openingValue, enumMember, renderMembers, Member.render, TypeExpr.render, enumType,
    memberLine, indentation, propertyKey_letter, ← String.toList_inj]

/-- With the closing value a block ends behind the interface, and the other members go to the
interface behind that. -/
theorem render_closingValue (members : List Member) :
    (Item.interface shape (i.withMembers (enumMember "state" closingValue true :: members))).render
        false =
      (Item.interface shape (i.withMembers [enumMember "state" "c" true])).render false ++
        ("\x7d " ++
          (Item.interface shape (.bare "R" (enumMember "k" "d" false :: members))).text) := by
  simp [Interface.withMembers, Interface.bare, Item.interface, Item.render, Item.text,
    interfaceText, closingValue, enumMember, renderMembers, Member.render, TypeExpr.render, enumType,
    memberLine, indentation, propertyKey_letter, ← String.toList_inj]

end Rendering

/-! ## What is hidden -/

/-- Declarations in a module block behind a declaration, and one more behind the block. -/
theorem isStatements_around {first second third inner : String} {outs outs' outs'' inside : List Outline}
    (hfirst : IsStatements first.toList outs) (hsecond : IsStatements second.toList outs')
    (hinner : IsStatements inner.toList inside) (hthird : IsStatements third.toList outs'')
    (hparted : Parted second.toList inner.toList) :
    IsStatements (first ++ (" declare module \"z\" \x7b" ++ second ++ inner ++ ("\x7d " ++ third))).toList
      (outs ++ (.module "z" (outs' ++ inside) :: outs'')) := by
  have hblank : IsStatements [' '] [] := isStatements_silent (spells_blanks (by decide))
  have hquote : Json.quote "z" = "\"z\"" := by decide
  have hblock := (hsecond.append hinner hparted).module "z"
  have hbehind := hblock.append (hblank.append hthird (parted_of_last (by decide) _))
    (parted_cons (by decide) _ _)
  have hwhole := hfirst.append (hblank.append hbehind (parted_of_last (by decide) _))
    (parted_cons (by decide) _ _)
  rw [hquote] at hwhole
  simpa using hwhole

/-- The text of declarations between a value that opens a block and one that ends it. -/
theorem chunkText_hidden (shape : Shape) (i j : Interface) (items : List Item)
    (members : List Member) :
    chunkText false
      (.interface shape (i.withMembers [enumMember "text" openingValue true]) :: (items ++
        [.interface shape (j.withMembers (enumMember "state" closingValue true :: members))])) =
      (Item.interface shape (i.withMembers [enumMember "text" "a" true])).render false ++
        (" declare module \"z\" \x7b" ++
          (Item.interface shape (.bare "Q" [enumMember "k" "b" false])).text ++
          spaced ((items ++ [Item.interface shape (j.withMembers [enumMember "state" "c" true])]).map
            fun i => i.render false) ++
          ("\x7d " ++
            (Item.interface shape (.bare "R" (enumMember "k" "d" false :: members))).text)) := by
  rw [chunkText, List.map_cons, intercalate_cons, List.map_append, List.map_append, spaced_append,
    spaced_append, List.map_singleton, List.map_singleton, spaced_cons, spaced_cons, spaced_nil,
    render_openingValue, render_closingValue]
  simp only [String.append_assoc, String.append_empty]

/-- What stands between a value that opens a module block and a value that ends it is declared in
that block, with the head of the interface which the second value stands in. -/
theorem isStatements_hidden (shape : Shape) {i j : Interface} (hi : i.IsHeaded) (hj : j.IsHeaded)
    (members : List Member) (hmembers : MembersWritable members) (items : List Item)
    (hitems : ∀ i ∈ items, i.Reads) :
    IsStatements (chunkText false
      (.interface shape (i.withMembers [enumMember "text" openingValue true]) :: (items ++
        [.interface shape (j.withMembers (enumMember "state" closingValue true :: members))]))).toList
      [.interface i.name true [⟨"text", true, enumType ["a"]⟩],
        .module "z" (.interface "Q" false [⟨"k", false, enumType ["b"]⟩] ::
          (items.flatMap (·.outlines false) ++
            [.interface j.name true [⟨"state", true, enumType ["c"]⟩]])),
        .interface "R" false
          (⟨"k", false, enumType ["d"]⟩ :: members.map (·.outline shape 0))] := by
  have hmember : ∀ (key value : String) isOptional, IsKey key → value ∈ ["a", "b", "c", "d"] →
      (enumMember key value isOptional).IsWritable := fun key value isOptional hkey hvalue =>
    isWritable_enumMember hkey (isQuotable_letters value hvalue) isOptional
  have hfirst := hi.reads shape [enumMember "text" "a" true]
    ⟨hmember _ _ _ (by decide) (by simp), trivial⟩
  have hsecond := isStatements_bare shape (show IsIdentifier "Q".toList by decide)
    [enumMember "k" "b" false] ⟨hmember _ _ _ (by decide) (by simp), trivial⟩
  have hlast := hj.reads shape [enumMember "state" "c" true]
    ⟨hmember _ _ _ (by decide) (by simp), trivial⟩
  have hthird := isStatements_bare shape (show IsIdentifier "R".toList by decide)
    (enumMember "k" "d" false :: members) ⟨hmember _ _ _ (by decide) (by simp), hmembers⟩
  -- what the block holds: the items, and the interface of the value that ends it
  have hinner : IsStatements
      (spaced ((items ++ [Item.interface shape (j.withMembers [enumMember "state" "c" true])]).map
        fun i => i.render false)).toList
      ((items ++ [Item.interface shape (j.withMembers [enumMember "state" "c" true])]).flatMap
        (·.outlines false)) := by
    refine isStatements_spaced fun i hi => ?_
    rcases List.mem_append.mp hi with hi | hi
    · exact (hitems i hi).isStatements false
    · exact List.mem_singleton.mp hi ▸ hlast.isStatements false
  have hwhole := isStatements_around (hfirst.isStatements false) hsecond hinner hthird
    (parted_spaced _ _)
  have houtline : ∀ i : Interface, (Item.interface shape i).outlines false =
      [.interface i.name true (i.members.map (·.outline shape 0))] := fun _ => rfl
  have hname : ∀ (i : Interface) members, (i.withMembers members).name = i.name ∧
      (i.withMembers members).members = members := fun _ _ => ⟨rfl, rfl⟩
  rw [chunkText_hidden]
  simpa [houtline, hname, outline_enumMember] using hwhole

/-! ## A model that hides itself -/

/-- A note whose text opens a module block. -/
def openingSchema : Schema :=
  { tree := [("text", .dict [("type", .tag .string), ("enum", .list [.text openingValue])])]
    options := [("_id", .bool false), ("version_key", .bool false)]
    methods := []
    statics := []
    query := []
    virtuals := []
    children := [] }

/-- A ticket with such a note, whose state ends the block. The type of its text is declared. -/
def hidingSchema : Schema :=
  { tree := [("state", .dict [("type", .tag .string), ("enum", .list [.text closingValue])]),
      ("note", .schema openingSchema), ("text", .virtual ⟨"text", [], [], some "number"⟩)]
    options := [("_id", .bool false), ("version_key", .bool false)]
    methods := []
    statics := []
    query := []
    virtuals := [("text", ⟨"text", [], [], some "number"⟩)]
    children := [⟨"note", openingSchema, false, false⟩] }

/-- The note that is hoisted out of a ticket. -/
def hoistedNote : Hoisted :=
  ⟨"Ticket", ⟨"note", openingSchema, false, false⟩, false⟩

theorem itemChunks_hidingSchema :
    itemChunks [("Ticket", hidingSchema)] =
      .ok [hidingSchema.leanItems "Ticket" [hoistedNote] false,
        hidingSchema.documentItems "Ticket" [hoistedNote] false] :=
  rfl

theorem boundTree_hidingSchema :
    hidingSchema.boundTree "Ticket" =
      [("state", .dict [("type", .tag .string), ("enum", .list [.text closingValue])]),
        ("note", .subDocument ⟨"TicketNote", ["text"], false, false, false⟩),
        ("text", .virtual ⟨"text", [], [], some "number"⟩)] :=
  rfl

theorem members_hoistedNote (shape : Shape) :
    (hoistedNote.interface shape).members = [enumMember "text" openingValue true] := by
  cases shape <;> rfl

/-- A member with the note of a ticket. -/
def noteMember (type : String) : Member :=
  ⟨"note", true, false, .named type⟩

/-- A member with the text of a ticket. -/
def textMember : Member :=
  ⟨"text", false, true, .named "any"⟩

theorem members_leanInterface :
    (hidingSchema.leanInterface "Ticket" false).members =
      [enumMember "state" closingValue true, noteMember "TicketNote"] := by
  rw [Schema.leanInterface, boundTree_hidingSchema]
  rfl

theorem members_documentInterface :
    (hidingSchema.documentInterface "Ticket" false).members =
      [enumMember "state" closingValue true, noteMember "TicketNoteDocument", textMember] := by
  rw [Schema.documentInterface, boundTree_hidingSchema]
  rfl

theorem isWritable_noteMember {type : String} (h : IsIdentifier type.toList) :
    (noteMember type).IsWritable :=
  ⟨⟨by decide, IsKey.isPlainName (by decide)⟩, h.isType⟩

theorem isWritable_textMember : textMember.IsWritable :=
  ⟨⟨by decide, IsKey.isPlainName (by decide)⟩, IsIdentifier.isType (by decide)⟩

theorem isNamedType_objectId : IsNamedType IsQuotable objectIdType :=
  .fixed (by simp [fixedTypes])

theorem isHeaded_hoistedNote (shape : Shape) : (hoistedNote.interface shape).IsHeaded := by
  cases shape with
  | lean => exact ⟨isDocs_lean (by decide) (by decide), by decide, isHeritage_nil⟩
  | document =>
    exact ⟨isDocs_constructor (by decide) (by decide), by decide,
      (IsSchemaHeritage.document isNamedType_objectId).isHeritage fun _ h => h⟩

theorem isHeaded_leanInterface : (hidingSchema.leanInterface "Ticket" false).IsHeaded :=
  ⟨isDocs_lean (by decide) (fun _ h => nomatch h), by decide, isHeritage_nil⟩

theorem isHeaded_documentInterface : (hidingSchema.documentInterface "Ticket" false).IsHeaded :=
  ⟨isDocs_constructor (by decide) (by decide), by decide,
    (IsSchemaHeritage.model isNamedType_objectId (by decide)).isHeritage fun _ h => h⟩

/-- What the file of such a ticket says. -/
def hidingOutlines : List Outline :=
  [.interface "TicketNote" true [⟨"text", true, enumType ["a"]⟩],
    .module "z" (.interface "Q" false [⟨"k", false, enumType ["b"]⟩] ::
      ((hidingSchema.modelItems "Ticket").flatMap (·.outlines false) ++
        [.interface "Ticket" true [⟨"state", true, enumType ["c"]⟩]])),
    .interface "R" false [⟨"k", false, enumType ["d"]⟩, ⟨"note", true, "TicketNote"⟩],
    .interface "TicketNoteDocument" true [⟨"text", true, enumType ["a"]⟩],
    .module "z" [.interface "Q" false [⟨"k", false, enumType ["b"]⟩],
      .interface "TicketDocument" true [⟨"state", true, enumType ["c"]⟩]],
    .interface "R" false [⟨"k", false, enumType ["d"]⟩, ⟨"note", true, "TicketNoteDocument"⟩,
      ⟨"text", false, "any"⟩]]

/-- The ticket is declared in module blocks. -/
theorem isStatements_hidingSchema :
    ∃ texts, modelTexts false [("Ticket", hidingSchema)] = .ok texts ∧
      IsStatements (spaced texts).toList hidingOutlines := by
  have hitems : ∀ i ∈ hidingSchema.modelItems "Ticket", i.Reads := fun i hi =>
    (hidingSchema.isWritable_of_mem_modelItems (by decide) hi).reads fun _ h => h
  have hlean := isStatements_hidden .lean (isHeaded_hoistedNote .lean) isHeaded_leanInterface
    [noteMember "TicketNote"] ⟨isWritable_noteMember (by decide), trivial⟩ _ hitems
  have hdocument := isStatements_hidden .document (isHeaded_hoistedNote .document)
    isHeaded_documentInterface [noteMember "TicketNoteDocument", textMember]
    ⟨isWritable_noteMember (by decide), isWritable_textMember, trivial⟩ [] fun _ h => nomatch h
  have hnames : (hoistedNote.interface .lean).name = "TicketNote" ∧
      (hidingSchema.leanInterface "Ticket" false).name = "Ticket" ∧
      (hoistedNote.interface .document).name = "TicketNoteDocument" ∧
      (hidingSchema.documentInterface "Ticket" false).name = "TicketDocument" := by decide
  obtain ⟨hnote, hticket, hnoteDocument, hticketDocument⟩ := hnames
  -- the items of the model are those of the file, one hoisted interface in front of each chunk
  have hleanItems : ∀ (s : Schema) model h included, s.leanItems model [h] included =
      .interface .lean (h.interface .lean) ::
        (s.modelItems model ++ [.interface .lean (s.leanInterface model included)]) :=
    fun _ _ _ _ => rfl
  have hdocumentItems : ∀ (s : Schema) model h included, s.documentItems model [h] included =
      .interface .document (h.interface .document) ::
        ([] ++ [.interface .document (s.documentInterface model included)]) :=
    fun _ _ _ _ => rfl
  rw [← Interface.eq_withMembers (members_hoistedNote _),
    ← Interface.eq_withMembers members_leanInterface, ← hleanItems, hnote, hticket] at hlean
  rw [← Interface.eq_withMembers (members_hoistedNote _),
    ← Interface.eq_withMembers members_documentInterface, ← hdocumentItems, hnoteDocument,
    hticketDocument] at hdocument
  refine ⟨_, (modelTexts_eq false (by simp)).trans
    (congrArg (Except.map _) itemChunks_hidingSchema), ?_⟩
  exact @isStatements_spaced _ Prod.fst Prod.snd [(_, _), (_, _)]
    (List.forall_mem_cons.mpr ⟨hlean, List.forall_mem_singleton.mpr hdocument⟩)

end SchemaTypings
