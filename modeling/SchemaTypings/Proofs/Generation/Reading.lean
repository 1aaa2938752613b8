import SchemaTypings.Proofs.Generation.Items
import SchemaTypings.Proofs.Writing.Comments
import SchemaTypings.Proofs.Writing.Layout
import SchemaTypings.Proofs.Writing.Signatures

/-!
# Reading the declarations of a file

`Item.Reads` says of a declaration that it is read as it was meant, with and without the word in
front of it. A file of such declarations says what they say one after the other, and its lexemes are
theirs; in an augmentation they stand in a module block.
-/

namespace SchemaTypings

open Declaration

/-- A declaration that is read as it was meant. -/
def Item.Reads : Item → Prop
  | .declared docs _ text out => IsDocs docs ∧ IsDeclaration text.toList out
  | .helpers model => IsWord model.toList

/-- What stands in front of the members of an interface is read as it was meant. -/
structure Interface.IsHeaded (i : Interface) : Prop where
  docs : IsDocs i.docs
  name : IsIdentifier i.name.toList
  heritage : IsHeritage i.heritage.toList

namespace Item

variable {model : String}

/-! ## Declarations -/

/-- An interface by what it is read as, whatever the keys of its members are. -/
def interfaceReading (shape : Shape) (i : Interface) : Item :=
  .declared i.docs i.name (interfaceText shape i.name i.heritage i.members) fun isExported =>
    .interface i.name isExported (i.members.map (·.reading shape 0))

theorem reads_interfaceReading (shape : Shape) {i : Interface} (h : i.IsHeaded)
    (hmembers : MembersLabelled i.members) : (interfaceReading shape i).Reads := by
  have hline : IsMembers ['\n'] [] := isMembers_silent (spells_blanks (by decide))
  have hbody := (hline.append (isMembers_reading shape 0 i.members hmembers)
    (parted_of_last (by decide) _)).isObject
  have hinterface := isDeclaration_interface h.name.isInterfaceHead h.heritage hbody
  exact ⟨h.docs, by simpa [interfaceText] using hinterface⟩

theorem reads_interface (shape : Shape) {i : Interface} (hdocs : IsDocs i.docs)
    (hname : IsIdentifier i.name.toList) (hheritage : IsHeritage i.heritage.toList)
    (hmembers : MembersWritable i.members) : (interface shape i).Reads := by
  have hreads := reads_interfaceReading shape ⟨hdocs, hname, hheritage⟩
    (hmembers.mono (fun _ hN => hN) fun _ hK => hK.1)
  rwa [interfaceReading, List.map_congr_left fun m hm =>
    m.reading_eq_outline shape 0 (hmembers.of_mem hm).key.2] at hreads

theorem reads_collection {docs suffix : String} (hdocs : IsDocs docs) (hmodel : IsWord model.toList)
    (hname : IsIdentifier (model ++ suffix).toList) (names : List String) (role : Role) :
    (collection docs model suffix names role).Reads := by
  have hline : IsMembers ['\n'] [] := isMembers_silent (spells_blanks (by decide))
  have hbody := (hline.append (isMembers_functionLines role hmodel names)
    (parted_of_last (by decide) _)).isObject
  have halias := isDeclaration_alias hname hbody.isAliased
  exact ⟨hdocs, by simpa [collectionText, placeholderOutlines] using halias⟩

/-- A model's name with an ending that begins with a capital is an identifier. -/
theorem isIdentifier_suffix (h : IsWord model.toList) {suffix : String}
    (hpart : ∀ c ∈ suffix.toList, isIdentifierPart c)
    (hlower : suffix.toList.all (fun c => 'a' ≤ c && c ≤ 'z') = false) :
    IsIdentifier (model ++ suffix).toList := by
  rw [String.toList_append]
  exact h.isIdentifier_append hpart hlower

theorem reads_object (h : IsIdentifier model.toList) : (object model).Reads := by
  have hname : IsIdentifier (model ++ "Object").toList := isIdentifier_suffix h.1 (by decide) (by decide)
  have halias := isDeclaration_alias hname h.isAliased
  exact ⟨isDocs_object h.1, by simpa using halias⟩

theorem reads_model (h : IsWord model.toList) : (Item.model model).Reads := by
  have hname : IsIdentifier (model ++ "Model").toList := isIdentifier_suffix h (by decide) (by decide)
  have hdocument : IsIdentifier (model ++ "Document").toList :=
    isIdentifier_suffix h (by decide) (by decide)
  have hstatics : IsIdentifier (model ++ "Statics").toList :=
    isIdentifier_suffix h (by decide) (by decide)
  have hmongoose : IsIdentifier "mongoose".toList := by decide
  have hmodel : IsIdentifier "Model".toList := by decide
  have hheritage := ((hmongoose.isQualified.dotted hmodel).generic
    hdocument.isType.isBalanced).isReferences.comma hstatics.isQualified.isReference |>.isHeritage
  have hbody := (isMembers_silent spells_nil).isObject
  have hinterface := isDeclaration_interface hname.isInterfaceHead hheritage hbody
  exact ⟨isDocs_constructor h (by decide), by simpa using hinterface⟩

theorem reads_schema (h : IsWord model.toList) : (schema model).Reads := by
  have hname : IsIdentifier (model ++ "Schema").toList := isIdentifier_suffix h (by decide) (by decide)
  have hdocument : IsIdentifier (model ++ "Document").toList :=
    isIdentifier_suffix h (by decide) (by decide)
  have hmodel : IsIdentifier (model ++ "Model").toList := isIdentifier_suffix h (by decide) (by decide)
  have hmongoose : IsIdentifier "mongoose".toList := by decide
  have hschema : IsIdentifier "Schema".toList := by decide
  have htype := hschema.isType_dot.generic
    (hdocument.isType.isBalanced.comma hmodel.isType.isBalanced)
  have halias := isDeclaration_alias hname
    (hmongoose.isType.isAliased_append htype (parted_of_head _ (by simp; decide)))
  exact ⟨isDocs_schema h, by simpa using halias⟩

/-- The interface of query helpers is read as a declaration. -/
theorem isDeclaration_helpers (h : IsWord model.toList) :
    IsDeclaration (helpersText model).toList fun isExported => .interface "Query" isExported [] := by
  have hqueries : IsIdentifier (model ++ "Queries").toList :=
    isIdentifier_suffix h (by decide) (by decide)
  have hquery : IsIdentifier "Query".toList := by decide
  have hresult : IsIdentifier "ResultType".toList := by decide
  have hdoc : IsIdentifier "DocType".toList := by decide
  have hdocument : IsIdentifier "Document".toList := by decide
  have hextends : Spells "extends".toList (Single .extendsWord "extends".toList) :=
    IsWord.spells (by decide)
  have hbound := hdoc.isType.spaced ((isType_single hextends (by decide)).spaced hdocument.isType)
  have hhead := hquery.isInterfaceHead_generic (hresult.isType.isBalanced.comma hbound.isBalanced)
  have hheritage := hqueries.isQualified.isReference.isReferences.isHeritage
  have hbody := (isMembers_silent spells_nil).isObject
  have hinterface := isDeclaration_interface hhead hheritage hbody
  unfold helpersText
  simpa using hinterface

/-! ## Lines -/

/-- A declaration whose lines end by line feeds. -/
def IsLined (i : Item) : Prop :=
  Declaration.IsLined i.text.toList

theorem isLined_interface (shape : Shape) {i : Interface} (hname : Declaration.IsLined i.name.toList)
    (hheritage : Declaration.IsLined i.heritage.toList)
    {K : String → Prop}
    (hmembers : MembersEvery (fun text => Declaration.IsLined text.toList) K i.members) :
    (interface shape i).IsLined := by
  have hlines := isLined_renderMembers shape 0 i.members hmembers
  simp only [IsLined, text, interface, interfaceText, String.toList_append, isLined_append, hname,
    hheritage, hlines, and_true]
  decide

theorem isLined_collection (docs : String) {suffix : String} (hmodel : IsWord model.toList)
    (hsuffix : Declaration.IsLined suffix.toList) (names : List String) (role : Role) :
    (collection docs model suffix names role).IsLined := by
  have hlines := isLined_functionLines role hmodel names
  simp only [IsLined, text, collection, collectionText, String.toList_append, isLined_append,
    hmodel.isLined, hsuffix, hlines, and_true]
  decide

theorem isLined_object (h : IsWord model.toList) : (object model).IsLined := by
  simp only [IsLined, text, object, String.toList_append, isLined_append, h.isLined, and_true]
  decide

theorem isLined_model (h : IsWord model.toList) : (Item.model model).IsLined := by
  simp only [IsLined, text, Item.model, String.toList_append, isLined_append, h.isLined, and_true]
  decide

theorem isLined_schema (h : IsWord model.toList) : (schema model).IsLined := by
  simp only [IsLined, text, schema, String.toList_append, isLined_append, h.isLined, and_true]
  decide

theorem isLined_helpers (h : IsWord model.toList) : (helpers model).IsLined := by
  show Declaration.IsLined (helpersText model).toList
  unfold helpersText
  simp only [String.toList_append, isLined_append, h.isLined, and_true]
  decide

end Item

/-! ## Declarations in a file -/

variable {i : Item} (isAugmented : Bool)

/-- The lexemes of a declaration in a file. -/
def Item.lexemes : Item → List (Kind × String)
  | .declared _ _ text _ =>
    (if isAugmented then [] else [(.exportWord, "export")]) ++ Declaration.lexemes text
  | .helpers model =>
    if isAugmented then Declaration.lexemes (helpersText model)
    else Declaration.lexemes Docs.augmentationHeader ++ Declaration.lexemes (helpersText model) ++
      Declaration.lexemes Docs.augmentationFooter

/-- A statement in a module block of the module. -/
theorem isStatements_ambient {x : String} {outs : List Outline} (h : IsStatements x.toList outs) :
    IsStatements (Docs.augmentationHeader ++ x ++ Docs.augmentationFooter).toList
      [.module "mongoose" outs] := by
  have hmodule := h.module "mongoose"
  have hquote : Json.quote "mongoose" = "\"mongoose\"" := by decide
  rw [hquote] at hmodule
  simpa [Docs.augmentationHeader, Docs.augmentationFooter] using hmodule

/-- A declaration is read in a file. -/
theorem Item.Reads.isStatements (h : i.Reads) :
    IsStatements (i.render isAugmented).toList (i.outlines isAugmented) := by
  have hline : Spells ['\n'] Silent := spells_blanks (by decide)
  cases i with
  | declared docs name text out =>
    obtain ⟨hdocs, hdeclared⟩ := h
    have hcomment := isStatements_silent
      (hdocs.spells.append_silent hline (parted_cons (by decide) _ _))
    cases isAugmented with
    | false =>
      have hwhole := hcomment.append hdeclared.exported (parted_concat (by decide) _ _)
      simpa [render, exportLead, outlines] using hwhole
    | true =>
      have hwhole := hcomment.append hdeclared.isStatements (parted_concat (by decide) _ _)
      simpa [render, exportLead, outlines] using hwhole
  | helpers model =>
    have hhelpers := (isDeclaration_helpers h).isStatements
    cases isAugmented with
    | false => exact isStatements_ambient hhelpers
    | true => exact hhelpers

/-- The line that opens an augmentation is spelled. -/
theorem isSpelled_augmentationHeader : IsSpelled Docs.augmentationHeader := by
  have hopen : Spells ['\x7b'] (Single .leftBrace ['\x7b']) := spells_sign (by decide)
  have hblank : Spells [' '] Silent := spells_blanks (by decide)
  have hdeclare : IsWord "declare".toList := by decide
  have hmodule : IsWord "module".toList := by decide
  have hquote : Json.quote "mongoose" = "\"mongoose\"" := by decide
  have hname := (spells_quote "mongoose").append
    (hblank.silent_append hopen (parted_of_last (by decide) _)) (parted_cons (by decide) _ _)
  have hwhole := hdeclare.spells_append (hmodule.spells_append hname)
  rw [hquote] at hwhole
  exact ⟨_, by simpa [Docs.augmentationHeader] using hwhole⟩

/-- The line ends in no word. -/
theorem parted_augmentationHeader (x : List Char) : Parted Docs.augmentationHeader.toList x :=
  parted_of_last (by decide) x

/-- No text makes a word with the line that closes an augmentation. -/
theorem parted_augmentationFooter (x : List Char) : Parted x Docs.augmentationFooter.toList :=
  parted_of_head x (by decide)

/-- A declaration has its lexemes in a file. -/
theorem Item.Reads.lexemes_render (h : i.Reads) :
    Declaration.lexemes (i.render isAugmented) = i.lexemes isAugmented := by
  have hline : Spells "\n".toList Silent := spells_blanks (by decide)
  cases i with
  | declared docs name text out =>
    obtain ⟨hdocs, hdeclared⟩ := h
    have hcomment : Spells (docs ++ "\n").toList Silent := by
      rw [String.toList_append]
      exact hdocs.spells.append_silent hline (parted_of_head _ (by decide))
    have hsilent := lexemes_silent hcomment
    have hparted : ∀ t : String, Parted (docs ++ "\n").toList t.toList := fun t =>
      parted_of_last (by simp; decide) _
    cases isAugmented with
    | false =>
      have hexport : IsWord "export".toList := by decide
      have hblank : Spells [' '] Silent := spells_blanks (by decide)
      have hlead : IsSpelled "export " :=
        ⟨_, hexport.spells.append_silent hblank (parted_cons (by decide) _ _)⟩
      have hkeyword : Declaration.lexemes "export " = [(.exportWord, "export")] := by decide
      -- the word stands between the comment and the declaration
      show Declaration.lexemes (docs ++ "\n" ++ "export " ++ text) = _
      rw [((IsSpelled.append ⟨_, hcomment⟩ hlead (hparted _))).lexemes_append
          (parted_of_last (by simp; decide) _),
        IsSpelled.lexemes_append ⟨_, hcomment⟩ (hparted _), hsilent, hkeyword]
      rfl
    | true =>
      show Declaration.lexemes (docs ++ "\n" ++ "" ++ text) = _
      rw [String.append_empty, IsSpelled.lexemes_append ⟨_, hcomment⟩ (hparted _), hsilent]
      rfl
  | helpers model =>
    cases isAugmented with
    | false =>
      have hhelpers := (isDeclaration_helpers h).isSpelled
      show Declaration.lexemes (Docs.augmentationHeader ++ helpersText model ++
        Docs.augmentationFooter) = _
      rw [(isSpelled_augmentationHeader.append hhelpers (parted_augmentationHeader _)).lexemes_append
        (parted_augmentationFooter _),
        isSpelled_augmentationHeader.lexemes_append (parted_augmentationHeader _)]
      rfl
    | true => rfl

/-! ## Files -/

/-- Texts with empty lines in front of them are parted from anything in front of these. -/
theorem parted_spaced (x : List Char) (texts : List String) : Parted x (spaced texts).toList := by
  refine parted_of_head x fun c hc => ?_
  cases texts with
  | nil => exact nomatch hc
  | cons text texts =>
    rw [spaced_cons] at hc
    obtain rfl : '\n' = c := by simpa using hc
    decide

theorem spells_emptyLine : Spells "\n\n".toList Silent :=
  spells_blanks (by decide)

theorem parted_emptyLine (x : List Char) : Parted "\n\n".toList x :=
  parted_of_last (by decide) x

/-- Statements with empty lines between them. -/
theorem isStatements_spaced {α : Type} {text : α → String} {say : α → List Outline} {xs : List α}
    (h : ∀ x ∈ xs, IsStatements (text x).toList (say x)) :
    IsStatements (spaced (xs.map text)).toList (xs.flatMap say) := by
  induction xs with
  | nil => exact isStatements_silent spells_nil
  | cons x xs ih =>
    have hfirst := (isStatements_silent spells_emptyLine).append (h x (by simp)) (parted_emptyLine _)
    have hrest := ih fun y hy => h y (by simp [hy])
    have hwhole := hfirst.append hrest (parted_spaced _ _)
    rw [List.map_cons, spaced_cons, String.toList_append, String.toList_append]
    exact hwhole

/-- The lexemes of texts with empty lines between them. -/
theorem isSpelled_spaced {texts : List String} (h : ∀ text ∈ texts, IsSpelled text) :
    IsSpelled (spaced texts) ∧ lexemes (spaced texts) = texts.flatMap lexemes := by
  induction texts with
  | nil => exact ⟨⟨_, spells_nil⟩, rfl⟩
  | cons text texts ih =>
    have hline : IsSpelled "\n\n" := ⟨_, spells_emptyLine⟩
    have hfirst := hline.append (h text (by simp)) (parted_emptyLine _)
    obtain ⟨hrest, hlexemes⟩ := ih fun t ht => h t (by simp [ht])
    rw [spaced_cons]
    refine ⟨hfirst.append hrest (parted_spaced _ _), ?_⟩
    rw [hfirst.lexemes_append (parted_spaced _ _), hline.lexemes_append (parted_emptyLine _), hlexemes,
      lexemes_silent spells_emptyLine, List.flatMap_cons]
    rfl

/-- Texts of lines with empty lines in front of them are lines. -/
theorem isLined_spaced {texts : List String} (h : ∀ text ∈ texts, IsLined text.toList) :
    IsLined (spaced texts).toList := by
  induction texts with
  | nil => exact fun _ h => absurd h List.not_mem_nil
  | cons text texts ih =>
    have hline : IsLined "\n\n".toList := by decide
    rw [spaced_cons, String.toList_append, String.toList_append]
    exact isLined_append.mpr ⟨isLined_append.mpr ⟨hline, h text (by simp)⟩,
      ih fun t ht => h t (by simp [ht])⟩

/-- Texts that are indented one by one are padded as a whole. -/
theorem padded_spaced {texts : List String} (h : ∀ text ∈ texts, IsLined text.toList) :
    Padded (spaced texts).toList (spaced (texts.map (Text.indent "  "))).toList := by
  induction texts with
  | nil => exact .nil
  | cons text texts ih =>
    have hblanks : ∀ c ∈ "  ".toList, c = ' ' := by decide
    have hindented := padded_indentChars hblanks (h text (by simp))
    have hfirst := Padded.char '\n' hindented
    have hwhole := hfirst.append (ih fun t ht => h t (by simp [ht]))
    rw [List.map_cons, spaced_cons, spaced_cons]
    simpa [Text.indent] using hwhole

section Chunks

variable {items : List Item} (h : ∀ i ∈ items, i.Reads)

include h

theorem isStatements_chunkText :
    IsStatements (chunkText isAugmented items).toList (items.flatMap (·.outlines isAugmented)) := by
  cases items with
  | nil => exact isStatements_silent spells_nil
  | cons i items =>
    have hrest : IsStatements (spaced (items.map (·.render isAugmented))).toList
        (items.flatMap (·.outlines isAugmented)) :=
      isStatements_spaced fun j hj => (h j (by simp [hj])).isStatements isAugmented
    rw [chunkText, List.map_cons, intercalate_cons, String.toList_append]
    exact ((h i (by simp)).isStatements isAugmented).append hrest (parted_spaced _ _)

theorem lexemes_chunkText :
    lexemes (chunkText isAugmented items) = items.flatMap (·.lexemes isAugmented) := by
  cases items with
  | nil => rfl
  | cons i items =>
    have hspelled : ∀ text ∈ items.map (·.render isAugmented), IsSpelled text := by
      intro text htext
      obtain ⟨j, hj, rfl⟩ := List.mem_map.mp htext
      exact ((h j (by simp [hj])).isStatements isAugmented).isSpelled
    have hlexemes : items.map (fun j => Declaration.lexemes (j.render isAugmented)) =
        items.map (·.lexemes isAugmented) :=
      List.map_congr_left fun j hj => (h j (by simp [hj])).lexemes_render isAugmented
    have hfirst := (h i (by simp)).isStatements isAugmented
    rw [chunkText, List.map_cons, intercalate_cons, hfirst.isSpelled.lexemes_append (parted_spaced _ _),
      (isSpelled_spaced hspelled).2, (h i (by simp)).lexemes_render, List.flatMap_map,
      List.flatMap_cons, List.flatMap_def, List.flatMap_def, hlexemes]

/-- A chunk of an augmentation is lined when its declarations are. -/
theorem isLined_chunkText (hlined : ∀ i ∈ items, i.IsLined) :
    IsLined (chunkText true items).toList := by
  have hrender : ∀ i ∈ items, IsLined (i.render true).toList := by
    intro i hi
    have htext := hlined i hi
    have hreads := h i hi
    cases i with
    | declared docs name text out =>
      have hline : IsLined "\n".toList := by decide
      have hlead : IsLined (exportLead true).toList := by decide
      rw [Item.render, String.toList_append, String.toList_append, String.toList_append]
      exact isLined_append.mpr ⟨isLined_append.mpr
        ⟨isLined_append.mpr ⟨hreads.1.isLined, hline⟩, hlead⟩, htext⟩
    | helpers model => exact htext
  cases items with
  | nil => exact fun _ h => absurd h List.not_mem_nil
  | cons i items =>
    have hrest : ∀ text ∈ items.map (·.render true), IsLined text.toList :=
      List.forall_mem_map.mpr fun j hj => hrender j (by simp [hj])
    rw [chunkText, List.map_cons, intercalate_cons, String.toList_append]
    exact isLined_append.mpr ⟨hrender i (by simp), isLined_spaced hrest⟩

end Chunks

/-! ## Parts of a file -/

theorem textOfParts_eq (parts : List String) :
    textOfParts parts =
      (Docs.header ++ "\n") ++ ("\n" ++ (Docs.mongooseImport ++ (spaced parts ++ "\n"))) := by
  simp [textOfParts, spaced_cons, ← String.toList_inj]

/-- The header is silent. -/
theorem spells_headerLine : Spells (Docs.header ++ "\n").toList Silent := by
  rw [String.toList_append]
  exact spells_header

/-- The header ends in no word. -/
theorem parted_headerLine (x : List Char) : Parted (Docs.header ++ "\n").toList x := by
  rw [String.toList_append]
  exact parted_concat (by decide) _ x

theorem spells_line_end : Spells "\n".toList Silent :=
  spells_blanks (by decide)

theorem mem_importLines {imports : List String} {line : String} :
    line ∈ importLines imports ↔ line = Docs.mongooseImport ∨ line ∈ imports := by
  rw [importLines, List.mem_eraseDups, List.mem_cons]

/-- Lines that say nothing, one under the other. -/
theorem isStatements_lines {lines : List String}
    (h : ∀ line ∈ lines, IsStatements line.toList []) :
    IsStatements ("\n".intercalate lines).toList [] := by
  induction lines with
  | nil => exact isStatements_silent spells_nil
  | cons line lines ih =>
    obtain ⟨hline, hlines⟩ := List.forall_mem_cons.mp h
    cases lines with
    | nil => simpa using hline
    | cons next lines =>
      have hend := hline.append (isStatements_silent spells_line_end) (parted_of_head _ (by decide))
      rw [String.intercalate_cons_cons, String.toList_append, String.toList_append]
      exact hend.append (ih hlines) (parted_concat (by decide) line.toList _)

theorem textOfImports_eq (imports parts : List String) :
    textOfImports imports parts = (Docs.header ++ "\n") ++
      ("\n" ++ ("\n".intercalate (importLines imports) ++ (spaced parts ++ "\n"))) := by
  simp [textOfImports, spaced_cons, ← String.toList_inj]

/-- A file of statements says what these say, whatever import lines that say nothing are in it. -/
theorem isStatements_textOfImports {imports parts : List String} {outs : List Outline}
    (himports : ∀ line ∈ imports, IsStatements line.toList [])
    (h : IsStatements (spaced parts).toList outs) :
    IsStatements (textOfImports imports parts).toList outs := by
  have hlines : ∀ line ∈ importLines imports, IsStatements line.toList [] := by
    intro line hline
    rcases mem_importLines.mp hline with rfl | hline
    · exact isStatements_mongooseImport
    · exact himports line hline
  have hbehind : ∀ x, Parted x ((spaced parts).toList ++ "\n".toList) := by
    intro x
    cases parts with
    | nil => exact parted_of_head x (by decide)
    | cons part parts =>
      rw [spaced_cons, String.toList_append, String.toList_append]
      exact parted_cons (by decide) x _
  have hend := h.append (isStatements_silent spells_line_end) (parted_of_head _ (by decide))
  have hbody := (isStatements_lines hlines).append hend (hbehind _)
  have hline := (isStatements_silent spells_line_end).append hbody (parted_of_last (by decide) _)
  have hwhole := (isStatements_silent spells_headerLine).append hline (parted_headerLine _)
  rw [textOfImports_eq]
  simp only [String.toList_append] at hwhole ⊢
  simpa using hwhole

/-- A file of statements says what these say. -/
theorem isStatements_textOfParts {parts : List String} {outs : List Outline}
    (h : IsStatements (spaced parts).toList outs) : IsStatements (textOfParts parts).toList outs := by
  rw [← textOfImports_nil]
  exact isStatements_textOfImports (fun _ hline => absurd hline List.not_mem_nil) h

/-- The lexemes of a file are those of the import and of what stands behind it. -/
theorem lexemes_textOfParts_eq (parts : List String) :
    lexemes (textOfParts parts) = lexemes Docs.mongooseImport ++ lexemes (spaced parts ++ "\n") := by
  have himport := isStatements_mongooseImport.isSpelled
  have hline : IsSpelled "\n" := ⟨_, spells_line_end⟩
  have hbehind : Parted Docs.mongooseImport.toList (spaced parts ++ "\n").toList :=
    parted_of_last (by decide) _
  rw [textOfParts_eq, IsSpelled.lexemes_append ⟨_, spells_headerLine⟩ (parted_headerLine _),
    hline.lexemes_append (parted_of_last (by decide) _), himport.lexemes_append hbehind,
    lexemes_silent spells_headerLine, lexemes_silent spells_line_end, List.nil_append,
    List.nil_append]

/-- The lexemes of a file are those of the import and of the parts behind it. -/
theorem lexemes_textOfParts {parts : List String} (h : ∀ part ∈ parts, IsSpelled part) :
    lexemes (textOfParts parts) = lexemes Docs.mongooseImport ++ parts.flatMap lexemes := by
  obtain ⟨hspelled, hlexemes⟩ := isSpelled_spaced h
  have hend : Parted (spaced parts).toList "\n".toList := parted_of_head _ (by decide)
  rw [lexemes_textOfParts_eq, hspelled.lexemes_append hend, hlexemes, lexemes_silent spells_line_end,
    List.append_nil]

/-- The parts of an augmentation are statements in a module block. -/
theorem isStatements_augmentation {texts : List String} {outs : List Outline}
    (h : IsStatements (spaced texts).toList outs) :
    IsStatements (spaced (augmentation texts)).toList [.module "mongoose" outs] := by
  have hbody := h.append (isStatements_silent spells_emptyLine) (parted_of_head _ (by decide))
  rw [← String.toList_append, List.append_nil] at hbody
  have hmodule := (isStatements_silent spells_emptyLine).append (isStatements_ambient hbody)
    (parted_emptyLine _)
  have htext : spaced (augmentation texts) = "\n\n" ++
      (Docs.augmentationHeader ++ (spaced texts ++ "\n\n") ++ Docs.augmentationFooter) := by
    simp only [augmentation, List.cons_append, spaced_cons, spaced_append, spaced_nil,
      String.append_assoc, String.append_empty]
  rw [htext, String.toList_append]
  exact hmodule

/-- An indented augmentation is padded. -/
theorem padded_augmentation {texts : List String} (h : ∀ text ∈ texts, IsLined text.toList) :
    Padded (textOfParts (augmentation texts)).toList
      (textOfParts (augmentation (texts.map (Text.indent "  ")))).toList := by
  simp only [textOfParts_eq, augmentation, List.cons_append, spaced_cons, spaced_append,
    String.toList_append]
  exact (Padded.refl _).append ((Padded.refl _).append ((Padded.refl _).append
    (((Padded.refl _).append ((padded_spaced h).append (.refl _))).append (.refl _))))

/-! ## The whole file -/

section File

variable {chunks : List (List Item)} (h : ∀ c ∈ chunks, ∀ i ∈ c, i.Reads)

include h

theorem isStatements_chunks :
    IsStatements (spaced (chunks.map (chunkText isAugmented))).toList
      (chunks.flatten.flatMap (·.outlines isAugmented)) := by
  have hchunks := isStatements_spaced fun c hc => isStatements_chunkText isAugmented (h c hc)
  rw [← List.flatMap_id, List.flatMap_assoc]
  exact hchunks

theorem isSpelled_chunks : ∀ text ∈ chunks.map (chunkText isAugmented), IsSpelled text := by
  intro text htext
  obtain ⟨c, hc, rfl⟩ := List.mem_map.mp htext
  exact (isStatements_chunkText isAugmented (h c hc)).isSpelled

theorem lexemes_chunks :
    (chunks.map (chunkText isAugmented)).flatMap lexemes =
      chunks.flatten.flatMap (·.lexemes isAugmented) := by
  induction chunks with
  | nil => rfl
  | cons c chunks ih =>
    rw [List.map_cons, List.flatMap_cons, lexemes_chunkText isAugmented (h c (by simp)),
      ih fun d hd => h d (by simp [hd]), List.flatten_cons, List.flatMap_append]

/-- A file of declarations says what they say. -/
theorem exists_file_plain :
    ∃ file, SourceFile.ofText (fileText false chunks) = .ok file ∧
      file.text = fileText false chunks ∧
      file.outline = chunks.flatten.flatMap (·.outlines false) :=
  (isStatements_textOfParts (isStatements_chunks false h)).exists_file

/-- Its lexemes are those of the import and of the exported declarations. -/
theorem lexemes_plain :
    lexemes (fileText false chunks) =
      lexemes Docs.mongooseImport ++ chunks.flatten.flatMap (·.lexemes false) := by
  rw [← lexemes_chunks false h]
  exact lexemes_textOfParts (isSpelled_chunks false h)

/-- An augmentation can be read and declares what the declarations say in a module block, and its
lexemes are those of the declarations in a module block behind the import. -/
theorem exists_file_augmented (hlined : ∀ c ∈ chunks, ∀ i ∈ c, i.IsLined) :
    lexemes (fileText true chunks) =
        lexemes Docs.mongooseImport ++ (lexemes Docs.augmentationHeader ++
          chunks.flatten.flatMap (·.lexemes true) ++ lexemes Docs.augmentationFooter) ∧
      ∃ file, SourceFile.ofText (fileText true chunks) = .ok file ∧
        statementHeadings file.statements =
          [.module "mongoose" (outlineHeadings (chunks.flatten.flatMap (·.outlines true)))] := by
  have hlines : ∀ text ∈ chunks.map (chunkText true), IsLined text.toList := by
    intro text htext
    obtain ⟨c, hc, rfl⟩ := List.mem_map.mp htext
    exact isLined_chunkText (h c hc) (hlined c hc)
  have hfile := isStatements_textOfParts (isStatements_augmentation (isStatements_chunks true h))
  obtain ⟨hlexemes, hread⟩ := hfile.exists_file_of_padded (padded_augmentation hlines)
  refine ⟨hlexemes.trans ?_, hread⟩
  have hfooter : IsSpelled Docs.augmentationFooter := by
    have hclose : Spells ['\x7d'] (Single .rightBrace ['\x7d']) := spells_sign (by decide)
    exact ⟨_, hclose⟩
  -- the opening line, the chunks and the closing line are spelled each by itself
  have hparts : ∀ part ∈ augmentation (chunks.map (chunkText true)), IsSpelled part := by
    intro part hpart
    rcases List.mem_cons.mp hpart with rfl | hpart
    · exact isSpelled_augmentationHeader
    · rcases List.mem_append.mp hpart with hpart | hpart
      · exact isSpelled_chunks true h part hpart
      · rw [List.mem_singleton.mp hpart]
        exact hfooter
  rw [lexemes_textOfParts hparts, augmentation, List.cons_append, List.flatMap_cons,
    List.flatMap_append, lexemes_chunks true h, List.append_assoc]
  simp

end File

end SchemaTypings
