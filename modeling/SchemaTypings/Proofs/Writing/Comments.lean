import SchemaTypings.Docs
import SchemaTypings.Proofs.Writing.Lines
import SchemaTypings.Proofs.Writing.Statements

/-!
# Comments

The comments of a declaration file are dropped: a doc comment, because nothing in its lines ends it,
and the header, which no model has a part in. The lines of doc comments end by line feeds only.
-/

namespace SchemaTypings

open Declaration

/-- A text that ends neither a comment nor a line. -/
def IsCommentLine (s : String) : Prop :=
  ∀ c ∈ s.toList, c ≠ '*' ∧ Text.isLineBreak c = false

instance (s : String) : Decidable (IsCommentLine s) :=
  inferInstanceAs (Decidable (∀ _ ∈ _, _))

theorem isCommentLine_append {s t : String} :
    IsCommentLine (s ++ t) ↔ IsCommentLine s ∧ IsCommentLine t := by
  rw [IsCommentLine, String.toList_append, List.forall_mem_append]
  rfl

/-- The rest of a comment after its first lines. -/
theorem blockRest_lines {lines : List String} (h : ∀ line ∈ lines, IsCommentLine line) :
    BlockRest ((String.join (lines.map fun line =>
      (if line.isEmpty then " *" else " * " ++ line) ++ "\n")).toList ++ [' ', '*', '/']) := by
  induction lines with
  | nil => exact .char (by simp) .close
  | cons line rest ih =>
    have hrest := ih fun other hother => h other (List.mem_cons_of_mem _ hother)
    have hline : ∀ c ∈ line.toList ++ ['\n'], c ≠ '*' := by
      intro c hc hstar
      rcases List.mem_append.mp hc with hc | hc
      · exact (h line (by simp) c hc).1 hstar
      · simp [hstar] at hc
    by_cases hempty : line = ""
    · have htail := BlockRest.char (c := '\n') (by simp) hrest
      simpa [hempty] using BlockRest.char (c := ' ') (by simp) (.char (by simp) htail)
    · have htail := hrest.append hline
      simpa [hempty] using BlockRest.char (c := ' ') (by simp)
        (.char (by simp) (.char (c := ' ') (by simp) htail))

/-- A comment that is dropped, and whose lines end by line feeds. -/
structure IsDocs (s : String) : Prop where
  spells : Spells s.toList Silent
  isLined : IsLined s.toList

/-- The lines of a comment are lined. -/
theorem isLined_lines {lines : List String} (h : ∀ line ∈ lines, IsCommentLine line) :
    IsLined (String.join (lines.map fun line =>
      (if line.isEmpty then " *" else " * " ++ line) ++ "\n")).toList := by
  induction lines with
  | nil => decide
  | cons line rest ih =>
    have hrest := ih fun other hother => h other (List.mem_cons_of_mem _ hother)
    have hline : IsLined line.toList := fun c hc hbreak => by
      simp [(h line (by simp) c hc).2] at hbreak
    have hlead : IsLined (if line.isEmpty then " *" else " * " ++ line).toList := by
      split
      · decide
      · simp only [String.toList_append, isLined_append, hline, and_true, String.reduceToList]
        decide
    simp only [List.map_cons, String.join_cons, String.toList_append, isLined_append, hrest, hlead,
      and_true, true_and, String.reduceToList]
    decide

/-- A doc comment is dropped. -/
theorem isDocs_comment {lines : List String} (h : ∀ line ∈ lines, IsCommentLine line) :
    IsDocs (Docs.comment lines) := by
  have hblock := spells_block (.char (c := '*') (by simp) (.char (c := '\n') (by simp)
    (blockRest_lines h)))
  have hlines := isLined_lines h
  refine ⟨by simpa [Docs.comment] using hblock, ?_⟩
  simp only [Docs.comment, String.toList_append, isLined_append, hlines, and_true,
    String.reduceToList]
  decide

/-- The characters of words are in ASCII. -/
theorem toNat_lt_of_isIdentifierPart {c : Char} (h : isIdentifierPart c) : c.toNat < 128 := by
  have hvisible := visible_of_isIdentifierPart h
  omega

/-- Small letters of words are characters of words. -/
theorem isIdentifierPart_lowerASCII :
    (List.range 128).all (fun n => !isIdentifierPart (Char.ofNat n) ||
      isIdentifierPart (Char.ofNat n).toLower) = true := by
  decide

/-- The characters of words end neither comments nor lines. -/
theorem isCommentLine_of_isIdentifierPart {s : String} (h : ∀ c ∈ s.toList, isIdentifierPart c) :
    IsCommentLine s := by
  intro c hc
  refine ⟨?_, isLineBreak_of_visible (visible_of_isIdentifierPart (h c hc))⟩
  rintro rfl
  exact absurd (h '*' hc) (by decide)

theorem isCommentLine_of_isWord {s : String} (h : IsWord s.toList) : IsCommentLine s :=
  isCommentLine_of_isIdentifierPart h.2

/-- The lower case of word characters is that of each of them. -/
theorem lowerFrom_eq_map {cs : List Char} (h : ∀ c ∈ cs, isIdentifierPart c) (before : List Char) :
    Text.lowerFrom before cs = cs.map Char.toLower := by
  induction cs generalizing before with
  | nil => rfl
  | cons c cs ih =>
    have hlt := toNat_lt_of_isIdentifierPart (h c (by simp))
    have hsigma : c ≠ 'Σ' := by
      rintro rfl
      exact absurd hlt (by decide)
    simp [Text.lowerFrom, Text.lowerChar, hsigma, hlt, ih fun d hd => h d (by simp [hd])]

/-- Nor does the lower case of a word. -/
theorem isCommentLine_toLower {s : String} (h : IsWord s.toList) : IsCommentLine (Text.toLower s) := by
  refine isCommentLine_of_isIdentifierPart fun d hd => ?_
  rw [Text.toLower, String.toList_ofList, lowerFrom_eq_map h.2] at hd
  obtain ⟨c, hc, rfl⟩ := List.mem_map.mp hd
  have hlt := toNat_lt_of_isIdentifierPart (h.2 c hc)
  have hall := List.all_eq_true.mp isIdentifierPart_lowerASCII c.toNat (List.mem_range.mpr hlt)
  simpa [Char.ofNat_toNat, h.2 c hc] using hall

/-! ## Doc comments -/

variable {model : String}

/-- The lines of a comment are said one after the other. -/
theorem isCommentLine_cons {line : String} {rest : List String} :
    (∀ other ∈ line :: rest, IsCommentLine other) ↔
      IsCommentLine line ∧ ∀ other ∈ rest, IsCommentLine other :=
  List.forall_mem_cons

/-- No line is said. -/
theorem isCommentLine_nil : (∀ other ∈ ([] : List String), IsCommentLine other) ↔ True :=
  iff_true_intro fun _ h => absurd h List.not_mem_nil

theorem isDocs_object (h : IsWord model.toList) : IsDocs (Docs.object model) := by
  have hmodel := isCommentLine_of_isWord h
  have hlower := isCommentLine_toLower h
  refine isDocs_comment ?_
  simp only [isCommentLine_cons, isCommentLine_nil, isCommentLine_append, hmodel, hlower, and_true]
  and_intros
  all_goals exact forall_mem_ofList (by decide)

theorem isDocs_collection {title member type : String} (h : IsWord model.toList)
    (htitle : IsCommentLine title) (hmember : IsCommentLine member) (htype : IsCommentLine type) :
    IsDocs (Docs.collection title model member type) := by
  have hmodel := isCommentLine_of_isWord h
  refine isDocs_comment ?_
  simp only [isCommentLine_cons, isCommentLine_nil, isCommentLine_append, hmodel, htitle, hmember,
    htype, and_true, true_and]
  and_intros
  all_goals exact forall_mem_ofList (by decide)

theorem isCommentLine_modelConstruction (h : IsWord model.toList) :
    IsCommentLine (Docs.modelConstruction model) := by
  have hmodel := isCommentLine_of_isWord h
  unfold Docs.modelConstruction
  simp only [isCommentLine_append, hmodel, and_true]
  and_intros
  all_goals exact forall_mem_ofList (by decide)

theorem isDocs_constructor {title : String} (h : IsWord model.toList)
    (htitle : IsCommentLine title) : IsDocs (Docs.constructor title model) := by
  have hconstruction := isCommentLine_modelConstruction h
  refine isDocs_comment ?_
  simp only [isCommentLine_cons, isCommentLine_nil, isCommentLine_append, hconstruction, htitle,
    and_true, true_and]
  and_intros
  all_goals exact forall_mem_ofList (by decide)

theorem isDocs_schema (h : IsWord model.toList) : IsDocs (Docs.schema model) := by
  have hmodel := isCommentLine_of_isWord h
  refine isDocs_comment ?_
  simp only [isCommentLine_cons, isCommentLine_nil, isCommentLine_append, hmodel, and_true]
  and_intros
  all_goals exact forall_mem_ofList (by decide)

theorem isDocs_lean (h : IsWord model.toList) {full : Option String}
    (hfull : ∀ name ∈ full, IsCommentLine name) : IsDocs (Docs.lean model full) := by
  have hmodel := isCommentLine_of_isWord h
  have hlower := isCommentLine_toLower h
  have hgiven : IsCommentLine ((full.filter (!·.isEmpty)).getD model) := by
    cases hname : full.filter (!·.isEmpty) with
    | none => exact hmodel
    | some name => exact hfull name (Option.filter_eq_some_iff.mp hname).1
  have hhint : ∀ b : Bool, IsCommentLine (if b then
      " To avoid conflicts with model names, use the type alias `" ++ model ++ "Object`."
    else "") := by
    intro b
    split
    · simp only [isCommentLine_append, hmodel, and_true]
      exact ⟨forall_mem_ofList (by decide), forall_mem_ofList (by decide)⟩
    · exact fun c hc => absurd hc (by simp)
  refine isDocs_comment ?_
  simp only [isCommentLine_cons, isCommentLine_nil, isCommentLine_append, hmodel, hlower, hgiven,
    hhint, and_true]
  and_intros
  all_goals exact forall_mem_ofList (by decide)

theorem isDocs_subDocument (h : IsWord model.toList) {path : String} (hpath : IsCommentLine path) :
    IsDocs (Docs.subDocument model path) := by
  have hmodel := isCommentLine_of_isWord h
  refine isDocs_comment ?_
  simp only [isCommentLine_cons, isCommentLine_nil, isCommentLine_append, hmodel, hpath, and_true]
  and_intros
  all_goals exact forall_mem_ofList (by decide)

/-! ## The header -/

/-- The comments that open a declaration file are dropped, with the line that follows. -/
theorem spells_header : Spells (Docs.header.toList ++ ['\n']) Silent := by
  have hline : Spells ['\n'] Silent := spells_blanks (by decide)
  have hfirst := spells_block (BlockRest.append (x := " tslint:disable ".toList) (by decide) .close)
  have hsecond := spells_block (BlockRest.append (x := " eslint-disable ".toList) (by decide) .close)
  have hgenerated := spells_line (x := " ######################################## ".toList ++
    "THIS FILE WAS GENERATED BY MONGOTS ".toList ++
      "######################################## //".toList) (by
    rw [String.toList_ofList, String.toList_ofList, String.toList_ofList]
    decide +kernel)
  have hnote := spells_line (x := " NOTE: ANY CHANGES MADE WILL BE OVERWRITTEN ".toList ++
    "ON SUBSEQUENT EXECUTIONS OF MONGOTS.".toList) (by
    rw [String.toList_ofList, String.toList_ofList]
    decide)
  have hnotes := (hgenerated.append_silent hline (parted_concat (by decide) _ _)).append_silent hnote
    (parted_concat (by decide) _ _)
  have hblocks := (hfirst.append_silent hline (parted_cons (by decide) _ _)).append_silent
    (hsecond.append_silent (hline.append_silent hline (parted_cons (by decide) _ _))
      (parted_cons (by decide) _ _)) (parted_concat (by decide) _ _)
  have hwhole := hblocks.append_silent hnotes (parted_cons (by decide) _ _)
  -- the literals are compared by their characters, as decoding them takes long
  have h1 : "/* tslint:disable */\n/* eslint-disable */\n\n".toList = '/' :: '*' ::
      (" tslint:disable ".toList ++ ['*', '/']) ++ ['\n'] ++ ('/' :: '*' ::
        (" eslint-disable ".toList ++ ['*', '/']) ++ (['\n'] ++ ['\n'])) := by
    rw [String.toList_ofList, String.toList_ofList, String.toList_ofList]
    rfl
  have h2 : "// ######################################## THIS FILE WAS GENERATED BY MONGOTS ".toList
      = '/' :: '/' :: (" ######################################## ".toList ++
        "THIS FILE WAS GENERATED BY MONGOTS ".toList) := by
    rw [String.toList_ofList, String.toList_ofList, String.toList_ofList]
    rfl
  have h3 : "######################################## //\n\n".toList =
      "######################################## //".toList ++ ['\n'] ++ ['\n'] := by
    rw [String.toList_ofList, String.toList_ofList]
    rfl
  have h4 : "// NOTE: ANY CHANGES MADE WILL BE OVERWRITTEN ON SUBSEQUENT EXECUTIONS OF MONGOTS.".toList
      = '/' :: '/' :: (" NOTE: ANY CHANGES MADE WILL BE OVERWRITTEN ".toList ++
        "ON SUBSEQUENT EXECUTIONS OF MONGOTS.".toList) := by
    rw [String.toList_ofList, String.toList_ofList, String.toList_ofList]
    rfl
  unfold Docs.header
  rw [String.toList_append, String.toList_append, String.toList_append, h1, h2, h3, h4]
  simpa only [List.append_assoc, List.cons_append, List.nil_append] using hwhole

/-- The import that every declaration file needs says nothing. -/
theorem isStatements_mongooseImport : IsStatements Docs.mongooseImport.toList [] := by
  have hname : IsIdentifier "mongoose".toList := by decide
  have himport := isStatements_import hname "mongoose"
  have hquote : Json.quote "mongoose" = "\"mongoose\"" := by decide
  rw [hquote] at himport
  simpa [Docs.mongooseImport] using himport

end SchemaTypings
