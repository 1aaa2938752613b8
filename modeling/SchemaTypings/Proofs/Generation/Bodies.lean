import SchemaTypings.Proofs.Editing.Concatenation
import SchemaTypings.Proofs.Generation.Reading

/-!
# Bodies of generated files

A file that is not augmented is a header, an import, the texts of the models and a line feed
(`fileOf`). What stands between the import and the line feed is its body, and the edits of a file
are edits of its body (`exists_keptEdits`): the models are generated as a file with a body
(`HasBody`) when the edits make that file of their texts.
-/

namespace SchemaTypings

open Declaration
open List (Forall₂)

/-! ## Texts of files -/

/-- The header of a file and its import, with an empty line behind each. -/
def fileHead : String :=
  Docs.header ++ "\n\n" ++ Docs.mongooseImport ++ "\n\n"

/-- The file with a body. -/
def fileOf (body : String) : String :=
  fileHead ++ body ++ "\n"

theorem tokens_fileHead : tokens fileHead =
    [⟨.importWord, "import", 8, 251⟩, ⟨.identifier, "mongoose", 8, 258⟩,
      ⟨.identifier, "from", 8, 267⟩, ⟨.string, "\"mongoose\"", 8, 272⟩,
      ⟨.semicolon, ";", 8, 282⟩] := by
  unfold tokens fileHead Docs.header Docs.mongooseImport
  simp only [String.toList_append, String.reduceToList]
  decide +kernel

theorem isImportHead_fileHead : IsImportHead fileHead.toList where
  endsLine := by
    have hlines : "\n\n".toList = ['\n'] ++ ['\n'] := by decide
    rw [fileHead, String.toList_append, hlines, ← List.append_assoc]
    exact endsLine_concat _
  noOther := by
    rw [← noOther_iff]
    unfold NoOther
    rw [tokens_fileHead]
    decide
  exists_import := by
    rw [← tokens_eq_place, tokens_fileHead]
    exact ⟨_, [_, _, _], _, rfl, rfl, by decide, rfl⟩

theorem toList_fileOf (body : String) :
    (fileOf body).toList = fileHead.toList ++ body.toList ++ ['\n'] := by
  simp [fileOf]

/-- The body of texts, with an empty line between them. -/
def bodyOf (texts : List String) : String :=
  "\n\n".intercalate texts

theorem textOfParts_eq_fileOf {texts : List String} (hne : texts ≠ []) :
    textOfParts texts = fileOf (bodyOf texts) := by
  obtain ⟨first, rest, rfl⟩ := List.exists_cons_of_ne_nil hne
  simp [textOfParts, fileOf, fileHead, bodyOf, spaced_cons, intercalate_cons,
    ← String.toList_inj]

theorem bodyOf_append {texts more : List String} (hne : texts ≠ []) (hne' : more ≠ []) :
    bodyOf (texts ++ more) = bodyOf texts ++ "\n\n" ++ bodyOf more :=
  String.intercalate_append_of_ne_nil hne hne'

/-- The texts of models are written one behind the other. -/
theorem modelTexts_append (isAugmented : Bool) {A B : List (String × Schema)}
    {texts more : List String} (hA : modelTexts isAugmented A = .ok texts)
    (hB : modelTexts isAugmented B = .ok more) :
    modelTexts isAugmented (A ++ B) = .ok (texts ++ more) := by
  induction A generalizing texts with
  | nil =>
    obtain rfl : [] = texts := Except.ok.inj hA
    exact hB
  | cons entry rest ih =>
    obtain ⟨lean, document, others, hlean, hdocument, hothers, rfl⟩ :=
      modelTexts_cons_eq_ok_iff.mp hA
    exact modelTexts_cons_eq_ok_iff.mpr
      ⟨lean, document, others ++ more, hlean, hdocument, ih hothers, rfl⟩

/-- A model is not declared when its options cannot be read. -/
theorem exists_includesVirtuals_of_declare {s : Schema} {o : DeclareOptions} {text : String}
    (h : s.declare o = .ok text) : ∃ included, includesVirtuals s.options = .ok included := by
  rw [Schema.declare_eq] at h
  cases hincluded : includesVirtuals s.options with
  | ok included => exact ⟨included, rfl⟩
  | error e => simp [hincluded, Except.bind] at h

theorem exists_includesVirtuals {isAugmented : Bool} {schemas : List (String × Schema)}
    {texts : List String} (h : modelTexts isAugmented schemas = .ok texts) :
    ∀ entry ∈ schemas, ∃ included, includesVirtuals entry.2.options = .ok included := by
  induction schemas generalizing texts with
  | nil => simp
  | cons entry rest ih =>
    obtain ⟨lean, document, others, hlean, -, hothers, -⟩ := modelTexts_cons_eq_ok_iff.mp h
    exact List.forall_mem_cons.mpr ⟨exists_includesVirtuals_of_declare hlean, ih hothers⟩

/-- The options that a patch looks at can be read when the models are declared. -/
theorem optionsReadable_of_modelTexts {isAugmented : Bool} {schemas : List (String × Schema)}
    {texts : List String} (h : modelTexts isAugmented schemas = .ok texts)
    (known : List (String × KnownTypes)) : OptionsReadable schemas known := by
  intro model types _ _ schema hschema
  obtain ⟨before, after, hmem, -⟩ := List.lookup_eq_some_iff.mp hschema
  exact exists_includesVirtuals h (model, schema) (by simp [hmem])

/-- A file that is generated is read from its body. -/
theorem generateTypes_eq_ok_iff {schemas : List (String × Schema)} (hne : schemas ≠ [])
    {file : SourceFile} :
    generateTypes schemas ⟨false, []⟩ = .ok file ↔
      ∃ texts, modelTexts false schemas = .ok texts ∧
        SourceFile.ofText (fileOf (bodyOf texts)) = .ok file := by
  unfold generateTypes
  rw [declarationText_eq_parts false hne]
  cases htexts : modelTexts false schemas with
  | error e => simp [bind, Except.bind, Except.map, Except.mapError]
  | ok texts =>
    have hne' : texts ≠ [] := by
      obtain ⟨first, rest, rfl⟩ := exists_cons_of_modelTexts hne htexts
      exact List.cons_ne_nil _ _
    simp only [Except.map, Except.mapError, bind, Except.bind, Bool.false_eq_true, if_false,
      textOfParts_eq_fileOf hne', Except.ok.injEq, exists_eq_left']
    cases SourceFile.ofText (fileOf (bodyOf texts)) <;> simp

/-- Models whose texts are statements have a file that says what these say. -/
theorem exists_file_of_isStatements {schemas : List (String × Schema)} (hne : schemas ≠ [])
    {texts : List String} {outs : List Outline} (htexts : modelTexts false schemas = .ok texts)
    (h : IsStatements (spaced texts).toList outs) :
    ∃ ss, generateTypes schemas ⟨false, []⟩ = .ok ⟨fileOf (bodyOf texts), [], ss⟩ ∧
      NoOther (SourceFile.mk (fileOf (bodyOf texts)) [] ss).fullText ∧
      (SourceFile.mk (fileOf (bodyOf texts)) [] ss).outline = outs := by
  obtain ⟨first, rest, rfl⟩ := exists_cons_of_modelTexts hne htexts
  have hwhole := isStatements_textOfParts h
  rw [textOfParts_eq_fileOf (List.cons_ne_nil first rest)] at hwhole
  have hother := hwhole.noOther
  obtain ⟨file, hfile, -, houtline⟩ := hwhole.exists_file
  obtain ⟨d, -, rfl⟩ := (ofText_eq_ok_iff _ _).mp hfile
  refine ⟨_, (generateTypes_eq_ok_iff hne).mpr ⟨_, htexts, hfile⟩, ?_, houtline⟩
  simpa [SourceFile.fullText, applyEdits] using hother

/-! ## The edits of a generated file -/

/-- The edits that are kept when a file with these statements is patched, if it is. -/
def keptEdits (isPatched : Bool) (ss : List Statement) (schemas : List (String × Schema)) :
    List Edit :=
  if isPatched then
    (patchEdits ss schemas (knownTypes schemas)).1.foldl (fun es e => insertEdit e es) []
  else []

/-- A generated file keeps its edits, if the options that the patch looks at can be read. -/
theorem generate_eq {schemas : List (String × Schema)} {text : String} {ss : List Statement}
    (h : generateTypes schemas ⟨false, []⟩ = .ok ⟨text, [], ss⟩)
    (hreadable : OptionsReadable schemas (knownTypes schemas)) (isPatched : Bool) :
    generate schemas ⟨false, []⟩ isPatched = .ok ⟨text, keptEdits isPatched ss schemas, ss⟩ := by
  unfold generate
  rw [h]
  cases isPatched with
  | false => rfl
  | true =>
    have hpatch : patch ⟨text, [], ss⟩ (knownTypes schemas) schemas false =
        (⟨text, keptEdits true ss schemas, ss⟩, none) := by
      have hnone : (patchEdits ss schemas (knownTypes schemas)).2 = none :=
        patchEdits_eq_none_iff.mpr hreadable
      rw [patch_eq, SourceFile.edit_eq]
      exact Prod.ext rfl hnone
    simp only [bind, Except.bind, hpatch, if_true]
    rfl

/-- The edits for a file that is not augmented give properties of it other types. -/
theorem exists_property_of_mem_edits {ss : List Statement} {schemas : List (String × Schema)}
    {known : List (String × KnownTypes)} {e : Edit} (h : e ∈ (patchEdits ss schemas known).1) :
    ∃ p ∈ allProperties ss, e.start = p.typeStart ∧ e.stop = p.typeEnd :=
  @exists_property_of_mem_patchEdits ⟨"", [], ss⟩ false schemas known e h

/-- The edits that are kept give properties of the file other types. -/
theorem exists_property_of_mem_keptEdits {isPatched : Bool} {ss : List Statement}
    {schemas : List (String × Schema)} {e : Edit} (h : e ∈ keptEdits isPatched ss schemas) :
    ∃ p ∈ allProperties ss, e.start = p.typeStart ∧ e.stop = p.typeEnd := by
  cases isPatched with
  | false => exact absurd h List.not_mem_nil
  | true =>
    exact exists_property_of_mem_edits
      ((mem_or_mem_of_mem_foldl h).resolve_right List.not_mem_nil)

/-- The edits of a body are the same behind any text. -/
theorem exists_keptEdits {head body : List Char} {d : Statements} (h : IsBody head body d)
    (isPatched : Bool) (schemas : List (String × Schema)) (x : List Char) :
    ∃ gs : List Edit, (∀ g ∈ gs, g.start ≤ body.length ∧ g.stop ≤ body.length) ∧
      keptEdits isPatched d.statements schemas = gs.map (Edit.shift head.length) ∧
      keptEdits isPatched (d.move (Move.between (pieces head) (pieces x)).relocation).statements
        schemas = gs.map (Edit.shift x.length) := by
  let m := Move.between (pieces head) (pieces x)
  have hlike : Forall₂ (Edit.Like m.Takes) (keptEdits isPatched d.statements schemas)
      (keptEdits isPatched (d.move m.relocation).statements schemas) := by
    cases isPatched with
    | false => exact .nil
    | true =>
      have hname : ∀ p q, m.Takes p q → p.name = q.name := by
        rintro p _ ⟨rfl, -⟩
        rfl
      have hedits := (patchEdits_like hname (h.like_move x) schemas (knownTypes schemas)).1
      exact foldl_insertEdit_like m.ordered_takes hedits .nil
  obtain ⟨gs, hgs, hgs'⟩ := Move.exists_shift hlike
  have hfrom : m.fromOffset = head.length := by simp [m, Move.between]
  have hto : m.toOffset = x.length := by simp [m, Move.between]
  rw [hfrom] at hgs
  rw [hto] at hgs'
  refine ⟨gs, fun g hg => ?_, hgs, hgs'⟩
  have hmem : g.shift head.length ∈ keptEdits isPatched d.statements schemas :=
    hgs ▸ List.mem_map_of_mem hg
  obtain ⟨p, hp, hstart, hstop⟩ := exists_property_of_mem_keptEdits hmem
  have hspan := h.span_le hp
  simp only [Edit.shift] at hstart hstop
  omega

/-- The text of a body with edits, behind an edited text. -/
theorem applyEdits_body (x body rest : List Char) {es gs : List Edit}
    (hes : ∀ e ∈ es, e.start ≤ x.length ∧ e.stop ≤ x.length)
    (hgs : ∀ g ∈ gs, g.start ≤ body.length ∧ g.stop ≤ body.length) :
    applyEdits (x ++ body ++ rest) 0 (es ++ gs.map (Edit.shift x.length)) =
      applyEdits x 0 es ++ applyEdits body 0 gs ++ rest := by
  have hrest := applyEdits_append rest [] hgs
  rw [List.map_nil, List.append_nil] at hrest
  rw [List.append_assoc, applyEdits_append _ gs hes, hrest, List.append_assoc]
  rfl

/-- The text of a body with edits, between a text and some lines. -/
theorem applyEdits_behind_head (head : List Char) {body : List Char} {gs : List Edit}
    (hgs : ∀ g ∈ gs, g.start ≤ body.length ∧ g.stop ≤ body.length) (lines : List Char) :
    applyEdits (head ++ body ++ lines) 0 (gs.map (Edit.shift head.length)) =
      head ++ applyEdits body 0 gs ++ lines := by
  have hnone : ∀ e ∈ ([] : List Edit), e.start ≤ head.length ∧ e.stop ≤ head.length :=
    fun _ h => nomatch h
  exact applyEdits_body head body lines hnone hgs

/-! ## Files with a body -/

/-- The models are generated as a file with this body. -/
def HasBody (schemas : List (String × Schema)) (isPatched : Bool) (body : String) : Prop :=
  ∃ file, generate schemas ⟨false, []⟩ isPatched = .ok file ∧ file.fullText = fileOf body

/-- What is generated for some models: the file of their texts, whose statements stand in its
body. -/
structure Generated (schemas : List (String × Schema)) (texts : List String) (d : Statements) :
    Prop where
  modelTexts_eq : modelTexts false schemas = .ok texts
  isFile : IsFile (fileOf (bodyOf texts)).toList d

section Generated

variable {schemas : List (String × Schema)} {texts : List String} {d : Statements}

theorem exists_generated (hne : schemas ≠ []) {file : SourceFile}
    (hfile : generateTypes schemas ⟨false, []⟩ = .ok file) (hother : NoOther file.fullText) :
    ∃ texts d, texts ≠ [] ∧ file.statements = d.statements ∧ Generated schemas texts d := by
  obtain ⟨texts, htexts, htext⟩ := (generateTypes_eq_ok_iff hne).mp hfile
  obtain ⟨first, rest, rfl⟩ := exists_cons_of_modelTexts hne htexts
  have hfull : file.fullText = fileOf (bodyOf (first :: rest)) := by
    obtain ⟨d, -, rfl⟩ := (ofText_eq_ok_iff _ _).mp htext
    simp [SourceFile.fullText, applyEdits]
  obtain ⟨d, hd, rfl⟩ := isFile_of_ofText htext (hfull ▸ hother)
  exact ⟨_, d, List.cons_ne_nil _ _, rfl, htexts, hd⟩

/-- The text of a generated file is that of its declarations with the edits made to it. -/
theorem Generated.hasBody (h : Generated schemas texts d) (hne : schemas ≠ []) {isPatched : Bool}
    {body : String}
    (hedits : applyEdits (fileOf (bodyOf texts)).toList 0
      (keptEdits isPatched d.statements schemas) = (fileOf body).toList) :
    HasBody schemas isPatched body := by
  have hfile : generateTypes schemas ⟨false, []⟩ =
      .ok ⟨fileOf (bodyOf texts), [], d.statements⟩ := by
    refine (generateTypes_eq_ok_iff hne).mpr ⟨texts, h.modelTexts_eq, ?_⟩
    simpa using h.isFile.ofText_eq
  have hreadable := optionsReadable_of_modelTexts h.modelTexts_eq (knownTypes schemas)
  refine ⟨_, generate_eq hfile hreadable isPatched, ?_⟩
  rw [SourceFile.fullText, hedits, String.ofList_toList]

end Generated

/-- The file with a body is what the edits make of the text of the models. -/
theorem HasBody.applyEdits_eq {schemas : List (String × Schema)} {isPatched : Bool} {body : String}
    {texts : List String} {ss : List Statement} (h : HasBody schemas isPatched body)
    (htexts : modelTexts false schemas = .ok texts)
    (hfile : generateTypes schemas ⟨false, []⟩ = .ok ⟨fileOf (bodyOf texts), [], ss⟩) :
    applyEdits (fileOf (bodyOf texts)).toList 0 (keptEdits isPatched ss schemas) =
      (fileOf body).toList := by
  obtain ⟨file, hgenerated, htext⟩ := h
  rw [generate_eq hfile (optionsReadable_of_modelTexts htexts _)] at hgenerated
  obtain rfl := Except.ok.inj hgenerated
  rw [← htext, SourceFile.fullText, String.toList_ofList]

end SchemaTypings
