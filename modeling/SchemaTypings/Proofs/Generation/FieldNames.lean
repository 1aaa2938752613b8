import SchemaTypings.Proofs.Generation.Labels
import SchemaTypings.Proofs.Schemas.Intact

/-!
# Field names in a generated file

A file is generated whatever the fields of the models are called, as long as no key is empty and
the keys above embedded schemas are names (`generateTypes_isParsed`). A key that is no name is
written in quotes, and a declaration with such keys has the text of one that is read as it was
meant, under the names that its keys are read as (`Item.ReadsAs`). A key with a hyphen above an
embedded schema becomes part of the name of an interface, behind which no declaration file goes on
(`generateTypes_hyphen`).
-/

namespace SchemaTypings

open Declaration

/-! ## Declarations that are read -/

/-- A declaration has the text of one that is read as it was meant, on lines that end by line
feeds. -/
structure Item.ReadsAs (i j : Item) : Prop where
  render : ∀ isAugmented, j.render isAugmented = i.render isAugmented
  reads : j.Reads
  isLined : j.IsLined

theorem Item.IsWritable.readsAs {i : Item} (h : i.IsWritable IsInline) : i.ReadsAs i :=
  ⟨fun _ => rfl, h.reads fun _ h => h.isQuotable, h.isLined fun _ h => h⟩

/-- An interface has the text of the one that is read instead of it. -/
theorem Interface.IsWritable.readsAs {i : Interface} (h : i.IsWritable IsInline (· ≠ ""))
    (shape : Shape) : (Item.interface shape i).ReadsAs (Item.interfaceReading shape i) where
  render _ := rfl
  reads := by
    have hquotable : ∀ v, IsInline v → IsQuotable v := fun _ h => h.isQuotable
    have hmembers : MembersLabelled i.members :=
      h.members.mono (fun _ htext => htext.isType hquotable) fun _ hkey => hkey
    exact Item.reads_interfaceReading shape
      ⟨h.isDocs, h.isIdentifier, h.isHeritage.isHeritage hquotable⟩ hmembers
  isLined := h.isLined (fun _ h => h) shape

section Chunks

variable {chunks : List (List Item)} {read : Item → Item}
  (h : ∀ chunk ∈ chunks, ∀ i ∈ chunk, i.ReadsAs (read i))

include h

/-- What is read instead of the declarations of a file makes the same text. -/
theorem fileText_map_read (isAugmented : Bool) :
    fileText isAugmented (chunks.map (List.map read)) = fileText isAugmented chunks := by
  have htexts : (chunks.map (List.map read)).map (chunkText isAugmented) =
      chunks.map (chunkText isAugmented) := by
    rw [List.map_map]
    refine List.map_congr_left fun chunk hchunk => ?_
    have hrender : (chunk.map read).map (·.render isAugmented) =
        chunk.map (·.render isAugmented) := by
      rw [List.map_map]
      exact List.map_congr_left fun i hi => (h chunk hchunk i hi).render isAugmented
    rw [Function.comp_apply, chunkText, chunkText, hrender]
  unfold fileText
  rw [htexts]

/-- Each is read instead of one of them. -/
theorem exists_readsAs_of_mem_map_read :
    ∀ chunk ∈ chunks.map (List.map read), ∀ j ∈ chunk, ∃ i : Item, i.ReadsAs j := by
  intro chunk hchunk j hj
  obtain ⟨chunk, hmem, rfl⟩ := List.mem_map.mp hchunk
  obtain ⟨i, hi, rfl⟩ := List.mem_map.mp hj
  exact ⟨i, h chunk hmem i hi⟩

end Chunks

/-- A file of declarations that are read, each as some other, is read. -/
theorem exists_file_of_readsAs {chunks : List (List Item)}
    (h : ∀ chunk ∈ chunks, ∀ i ∈ chunk, ∃ j, i.ReadsAs j) (isAugmented : Bool) :
    ∃ file, SourceFile.ofText (fileText isAugmented chunks) = .ok file := by
  -- outside of the file a declaration is read as itself, so that there is one for every declaration
  have hreading : ∀ i : Item, ∃ j, (∃ j, i.ReadsAs j) → i.ReadsAs j := fun i => by
    by_cases hi : ∃ j, i.ReadsAs j
    · exact hi.imp fun _ h _ => h
    · exact ⟨i, fun h => absurd h hi⟩
  obtain ⟨read, hread⟩ := Classical.skolem.mp hreading
  have hall : ∀ chunk ∈ chunks, ∀ i ∈ chunk, i.ReadsAs (read i) := fun chunk hchunk i hi =>
    hread i (h chunk hchunk i hi)
  have hmem := exists_readsAs_of_mem_map_read hall
  have hreads : ∀ chunk ∈ chunks.map (List.map read), ∀ j ∈ chunk, j.Reads := by
    intro chunk hchunk j hj
    obtain ⟨i, hij⟩ := hmem chunk hchunk j hj
    exact hij.reads
  have hlined : ∀ chunk ∈ chunks.map (List.map read), ∀ j ∈ chunk, j.IsLined := by
    intro chunk hchunk j hj
    obtain ⟨i, hij⟩ := hmem chunk hchunk j hj
    exact hij.isLined
  rw [← fileText_map_read hall]
  cases isAugmented with
  | false =>
    obtain ⟨file, hfile, -⟩ := exists_file_plain hreads
    exact ⟨file, hfile⟩
  | true =>
    obtain ⟨-, file, hfile, -⟩ := exists_file_augmented hreads hlined
    exact ⟨file, hfile⟩

/-! ## Files of labelled models -/

variable {schemas : List (String × Schema)}

/-- Models whose fields can be told by their keys: their names are identifiers, the keys hold
something, embedded schemas are at paths of names, the enumerated values stand in quotes as they are,
and no schema is another one when it is declared again. -/
def AllLabelled (schemas : List (String × Schema)) : Prop :=
  ∀ entry ∈ schemas, IsIdentifier entry.1.toList ∧ entry.2.IsLabelled ∧
    (∀ value, entry.2.Renders entry.1 value → IsInline value) ∧ entry.2.StaysIntact

/-- All declarations of labelled models are read, each as some other. -/
theorem AllLabelled.exists_readsAs (h : AllLabelled schemas) {chunks : List (List Item)}
    (hchunks : itemChunks schemas = .ok chunks) :
    ∀ chunk ∈ chunks, ∀ i ∈ chunk, ∃ j, i.ReadsAs j := by
  intro chunk hchunk i hi
  obtain ⟨⟨model, s⟩, hentry, hoisted, included, hhoisted, -, hkind⟩ :=
    exists_of_mem_itemChunks hchunks hchunk
  obtain ⟨hmodel, hs, henum, -⟩ := h _ hentry
  have hitem : i ∈ s.leanItems model hoisted included ∨
      i ∈ s.documentItems model hoisted included := by
    rcases hkind with rfl | rfl
    · exact .inl hi
    · exact .inr hi
  rcases Schema.cases_of_mem_items namesSchemas_isLabelled hs hmodel henum hhoisted included hitem
    with hi | ⟨shape, j, hj, rfl⟩
  · exact ⟨i, (s.isWritable_of_mem_modelItems hmodel hi).readsAs⟩
  · exact ⟨_, hj.readsAs shape⟩

/-- A file without models is read. -/
theorem exists_generateTypes_nil (isAugmented : Bool) :
    ∃ file, generateTypes [] ⟨isAugmented, []⟩ = .ok file := by
  have hline : IsStatements "\n\n\n".toList [] := isStatements_silent (spells_blanks (by decide))
  have hparts : ∃ outs, IsStatements (spaced (if isAugmented then
      [Docs.augmentationHeader ++ "\n\n\n" ++ Docs.augmentationFooter] else [])).toList outs := by
    cases isAugmented with
    | false => exact ⟨_, isStatements_silent spells_nil⟩
    | true =>
      have hmodule := (isStatements_silent spells_emptyLine).append (isStatements_ambient hline)
        (parted_emptyLine _)
      rw [← String.toList_append] at hmodule
      refine ⟨[.module "mongoose" []], ?_⟩
      rw [if_pos rfl, spaced_cons, spaced_nil, String.append_empty]
      exact hmodule
  obtain ⟨outs, houts⟩ := hparts
  obtain ⟨file, hfile, -⟩ := (isStatements_textOfParts houts).exists_file
  refine ⟨file, ?_⟩
  unfold generateTypes
  rw [declarationText_nil]
  simp only [Except.mapError, bind, Except.bind, hfile]

/-- The names of fields are no reason why a file is not generated when the keys of all schemas hold
something and those above embedded schemas are names. There is a file when all options are readable,
in an augmentation or not, and no text comes about that is not read. -/
theorem generateTypes_isParsed (h : AllLabelled schemas) (isAugmented : Bool) :
    ((∀ entry ∈ schemas, entry.2.IsReadable) →
      ∃ file, generateTypes schemas ⟨isAugmented, []⟩ = .ok file) ∧
    ∀ e, generateTypes schemas ⟨isAugmented, []⟩ ≠ .error (.parse e) := by
  by_cases hne : schemas = []
  · subst hne
    obtain ⟨file, hfile⟩ := exists_generateTypes_nil isAugmented
    refine ⟨fun _ => ⟨file, hfile⟩, fun e he => ?_⟩
    rw [hfile] at he
    exact nomatch he
  have hnames : ∀ entry ∈ schemas, entry.1 ≠ "" := fun entry hentry =>
    (IsWord.isKey (h entry hentry).1.1).1
  have hreadable := exists_itemChunks_iff_of_isAtKeys fun entry hentry =>
    ⟨hnames entry hentry, (h entry hentry).2.1⟩
  rw [← hreadable, generateTypes_eq isAugmented hne hnames]
  cases hchunks : itemChunks schemas with
  | error e => exact ⟨(fun ⟨_, h⟩ => nomatch h), fun _ h => nomatch h⟩
  | ok chunks =>
    obtain ⟨file, hfile⟩ := exists_file_of_readsAs (h.exists_readsAs hchunks) isAugmented
    simp only [Except.mapError, Except.bind, hfile]
    exact ⟨fun _ => ⟨file, rfl⟩, fun _ h => nomatch h⟩

/-! ## A profile with quoted keys -/

/-- An address. -/
def addressSchema : Schema :=
  { tree := [("city", .tag .string)]
    options := [("_id", .bool false), ("version_key", .bool false)]
    methods := []
    statics := []
    query := []
    virtuals := []
    children := [] }

/-- A profile with an embedded address, a key that is no name and the key of references. -/
def profileSchema : Schema :=
  { tree := [("full name", .tag .string), ("ref", .tag .string), ("address", .schema addressSchema)]
    options := [("_id", .bool false), ("version_key", .bool false)]
    methods := []
    statics := []
    query := []
    virtuals := []
    children := [⟨"address", addressSchema, false, false⟩] }

theorem boundTree_profileSchema :
    profileSchema.boundTree "User" =
      [("full name", .tag .string), ("ref", .tag .string),
        ("address", .subDocument ⟨"UserAddres", ["city"], false, false, false⟩)] :=
  rfl

theorem isLabelled_profileSchema : profileSchema.IsLabelled := by
  have hpath : ∀ segment ∈ pathSegments "address", IsKey segment := by decide
  have haddress : HasSteps addressSchema.keySteps addressSchema.tree := by
    refine List.forall_mem_singleton.mpr (.of_tag ?_ _)
    decide
  have hprofile : HasSteps profileSchema.keySteps profileSchema.tree := by
    refine List.forall_mem_cons.mpr ⟨.of_tag ?_ _, List.forall_mem_cons.mpr
      ⟨.of_tag ?_ _, List.forall_mem_singleton.mpr (.of_refText? ?_ rfl)⟩⟩
    all_goals decide
  exact Schema.every_iff.mpr ⟨⟨hprofile, trivial, trivial, trivial, trivial⟩, hpath,
    Schema.every_iff.mpr ⟨⟨haddress, trivial, trivial⟩, trivial⟩, trivial⟩

/-- Nothing is rendered among enumerated values by a profile. -/
theorem not_renders_profileSchema {value : String} : ¬ profileSchema.Renders "User" value := by
  have hchildren : ∀ c ∈ profileSchema.children, c.schema.children = [] :=
    List.forall_mem_singleton.mpr rfl
  rintro (⟨hcompiles, hrenders⟩ | ⟨htype, -⟩)
  · obtain ⟨rfl, rfl⟩ | ⟨c, hc, rfl⟩ := hcompiles.eq_self_or_mem hchildren
    · rw [boundTree_profileSchema] at hrenders
      refine not_rendersEnum ?_ hrenders
      exact ⟨rfl, trivial, trivial, trivial, trivial⟩
    · obtain rfl := List.mem_singleton.mp hc
      refine not_rendersEnum ?_ hrenders
      exact ⟨rfl, trivial, trivial⟩
  · cases htype

theorem staysIntact_profileSchema : profileSchema.StaysIntact := by
  have hkeys : HasPlainKeys profileSchema.tree := by
    unfold HasPlainKeys
    decide
  have hprofile : profileSchema.HasSeparateLeaves :=
    Schema.hasSeparateLeaves_of_hasPlainPaths ⟨hkeys, trivial, trivial, trivial, trivial⟩
      (List.forall_mem_singleton.mpr ⟨"address", by decide, List.prefix_rfl⟩)
  exact Schema.every_iff.mpr
    ⟨hprofile, trivial, Schema.staysIntact_of_children rfl, trivial⟩

/-- The types of profiles are generated. -/
theorem generateTypes_isParsed_profile :
    Schema.build (.dict [("full name", .type .str), ("ref", .type .str),
        ("address", .schema addressSchema)]) .null
        [("_id", .bool false), ("version_key", .bool false)] = .ok profileSchema ∧
      ∃ file, generateTypes [("User", profileSchema)] ⟨false, []⟩ = .ok file := by
  have hlabelled : AllLabelled [("User", profileSchema)] :=
    List.forall_mem_singleton.mpr ⟨by decide, isLabelled_profileSchema,
      fun value hvalue => absurd hvalue not_renders_profileSchema, staysIntact_profileSchema⟩
  have haddress : addressSchema.IsReadable := Schema.every_iff.mpr ⟨⟨false, rfl⟩, trivial⟩
  have hreadable : profileSchema.IsReadable :=
    Schema.every_iff.mpr ⟨⟨false, rfl⟩, trivial, haddress, trivial⟩
  exact ⟨rfl, (generateTypes_isParsed hlabelled false).1 (List.forall_mem_singleton.mpr hreadable)⟩

/-! ## A hyphen above an embedded schema -/

/-- Tokens by their lexemes: the first of them at some place, and the rest. -/
theorem map_lexeme_eq_cons_iff {ts : List Token} {kind : Kind} {text : String}
    {more : List (Kind × String)} :
    ts.map Token.lexeme = (kind, text) :: more ↔
      ∃ line offset rest, ts = ⟨kind, text, line, offset⟩ :: rest ∧
        rest.map Token.lexeme = more := by
  rw [List.map_eq_cons_iff]
  constructor
  · rintro ⟨⟨k, s, line, offset⟩, rest, rfl, hlexeme, hrest⟩
    obtain ⟨rfl, rfl⟩ := Prod.mk.inj hlexeme
    exact ⟨line, offset, rest, rfl, hrest⟩
  · rintro ⟨line, offset, rest, rfl, hrest⟩
    exact ⟨_, rest, rfl, rfl, hrest⟩

/-- The name of an interface is not followed by a sign without a use. -/
theorem exists_parse_error {text name sign : String} {more : List (Kind × String)}
    (h : lexemes text = lexemes Docs.mongooseImport ++ (.exportWord, "export") ::
      (.interfaceWord, "interface") :: (.identifier, name) :: (.other, sign) :: more) :
    ∃ e, parse text = .error e := by
  have himport : lexemes Docs.mongooseImport = [(.importWord, "import"), (.identifier, "mongoose"),
      (.identifier, "from"), (.string, "\"mongoose\""), (.semicolon, ";")] := by decide
  rw [himport, lexemes] at h
  simp only [List.cons_append, List.nil_append, map_lexeme_eq_cons_iff] at h
  -- five tokens of the import, three in front of the sign, and the sign, each at a place of its own
  obtain ⟨_, _, _, h, _, _, _, rfl, _, _, _, rfl, _, _, _, rfl, _, _, _, rfl,
    _, _, _, rfl, _, _, _, rfl, _, _, _, rfl, line, offset, _, rfl, -⟩ := h
  refine ⟨.unexpected ⟨.other, sign, line, offset⟩, ?_⟩
  unfold parse
  rw [h]
  rfl

/-- A hyphen is a sign without a use. -/
theorem exists_lexemes_hyphen (rest : String) :
    ∃ more, lexemes ("-" ++ rest) = (.other, "-") :: more := by
  have htext : ("-" ++ rest).toList = '-' :: rest.toList := by simp
  refine ⟨(tokensFrom 0 1 1 rest.toList).map Token.lexeme, ?_⟩
  rw [lexemes, tokens, htext]
  rfl

/-- A user whose embedded address is at a key with a hyphen. -/
def customerSchema : Schema :=
  { tree := [("shipping-address", .schema addressSchema)]
    options := [("_id", .bool false), ("version_key", .bool false)]
    methods := []
    statics := []
    query := []
    virtuals := []
    children := [⟨"shipping-address", addressSchema, false, false⟩] }

/-- The interface of the address. -/
def shippingInterface : Interface :=
  ⟨Docs.lean "User" (some "UserShipping-addres"), "UserShipping-addres", "",
    [⟨"city", true, false, .named "string"⟩]⟩

/-- It is the first declaration of the user. -/
theorem exists_itemChunks_customerSchema :
    ∃ items document, itemChunks [("User", customerSchema)] =
      .ok [.interface .lean shippingInterface :: items, document] :=
  ⟨_, _, rfl⟩

/-- The hyphen stands inside the name of the interface. -/
theorem shippingInterface_head (rest : String) :
    "export " ++ ("interface " ++ (shippingInterface.name ++
        (shippingInterface.heritage ++ (" \x7b\n" ++ rest)))) =
      "export interface UserShipping" ++ ("-" ++ ("addres \x7b\n" ++ rest)) := by
  simp only [← String.append_assoc]
  congr 1

/-- Behind the import of a file that begins with the interface, its name ends at the hyphen. -/
theorem exists_lexemes_shippingInterface (items : List Item) (chunks : List (List Item)) :
    ∃ more, lexemes (fileText false ((.interface .lean shippingInterface :: items) :: chunks)) =
      lexemes Docs.mongooseImport ++ (.exportWord, "export") :: (.interfaceWord, "interface") ::
        (.identifier, "UserShipping") :: (.other, "-") :: more := by
  have hdocs : IsDocs shippingInterface.docs :=
    isDocs_lean (by decide) (fun name hname => Option.mem_some_iff.mp hname ▸ by decide)
  have hcomment : Spells (shippingInterface.docs ++ "\n").toList Silent := by
    rw [String.toList_append]
    exact hdocs.spells.append_silent (spells_blanks (by decide)) (parted_of_head _ (by decide))
  have hhead : IsSpelled "export interface UserShipping" := by
    have hexport : IsWord "export".toList := by decide
    have hinterface : IsWord "interface".toList := by decide
    have hname : IsWord "UserShipping".toList := by decide
    exact ⟨_, hexport.spells_append (hinterface.spells_append hname.spells)⟩
  have hwords : lexemes "export interface UserShipping" =
      [(.exportWord, "export"), (.interfaceWord, "interface"), (.identifier, "UserShipping")] := by
    decide
  -- behind the empty line stand the comment, what is read as words, and the hyphen
  obtain ⟨rest, htext⟩ : ∃ rest, spaced
      (((.interface .lean shippingInterface :: items) :: chunks).map (chunkText false)) ++ "\n" =
        "\n\n" ++ ((shippingInterface.docs ++ "\n") ++
          ("export interface UserShipping" ++ ("-" ++ rest))) := by
    refine ⟨"addres \x7b\n" ++ (renderMembers .lean 0 shippingInterface.members ++ ("\x7d" ++
      (spaced (items.map (·.render false)) ++ (spaced (chunks.map (chunkText false)) ++ "\n")))), ?_⟩
    rw [← shippingInterface_head]
    simp only [chunkText, spaced_cons, intercalate_cons, Item.interface, Item.render, interfaceText,
      exportLead, List.map_cons, String.append_assoc, Bool.false_eq_true, if_false]
  obtain ⟨more, hmore⟩ := exists_lexemes_hyphen rest
  refine ⟨more, ?_⟩
  have hlines : IsSpelled "\n\n" := ⟨_, spells_emptyLine⟩
  have hapart : Parted "export interface UserShipping".toList ("-" ++ rest).toList :=
    parted_of_head _ (by simp; decide)
  unfold fileText
  dsimp only
  rw [if_neg (by decide), lexemes_textOfParts_eq, htext, hlines.lexemes_append (parted_emptyLine _),
    IsSpelled.lexemes_append ⟨_, hcomment⟩ (parted_of_last (by simp; decide) _),
    hhead.lexemes_append hapart, lexemes_silent spells_emptyLine, lexemes_silent hcomment, hwords,
    hmore]
  rfl

/-- A key with a hyphen above an embedded schema keeps the types from being generated. -/
theorem generateTypes_hyphen :
    Schema.build (.dict [("shipping-address", .schema addressSchema)]) .null
        [("_id", .bool false), ("version_key", .bool false)] = .ok customerSchema ∧
      customerSchema.IsReadable ∧
      ∃ e, generateTypes [("User", customerSchema)] ⟨false, []⟩ = .error (.parse e) := by
  have haddress : addressSchema.IsReadable := Schema.every_iff.mpr ⟨⟨false, rfl⟩, trivial⟩
  have hreadable : customerSchema.IsReadable :=
    Schema.every_iff.mpr ⟨⟨false, rfl⟩, trivial, haddress, trivial⟩
  refine ⟨rfl, hreadable, ?_⟩
  obtain ⟨items, document, hchunks⟩ := exists_itemChunks_customerSchema
  obtain ⟨more, hmore⟩ := exists_lexemes_shippingInterface items [document]
  obtain ⟨e, he⟩ := exists_parse_error hmore
  refine ⟨e, ?_⟩
  rw [generateTypes_eq false (List.cons_ne_nil _ _) (by simp), hchunks]
  simp [Except.mapError, Except.bind, SourceFile.ofText, he, Except.map]

end SchemaTypings
