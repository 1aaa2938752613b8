import SchemaTypings.Proofs.Generation.Bodies
import SchemaTypings.Proofs.Generation.Hiding
import SchemaTypings.Proofs.Generation.Names
import SchemaTypings.Proofs.Schemas.Intact

/-!
# Models by themselves

The file of some models and others is the file of the first with the body of the file of the others
behind it (`generate_append`). The texts are written one behind the other (`modelTexts_append`), and
are read so. A patch finds the declarations of a model by their names in the whole file, and makes
the edits of each file as long as the other one declares none of the names that it looks up
(`keptEdits_append`); names that differ are not enough for that (`generate_append_fails`).
-/

namespace SchemaTypings

open Declaration
open List (Forall₂)

/-! ## Files in a row -/

/-- The patch of some models looks a name up. -/
def LooksUp (schemas : List (String × Schema)) (name : String) : Prop :=
  ∃ entry ∈ knownTypes schemas, name ∈ patchedNames entry.1 entry.2

theorem mem_keys_of_mem_knownTypes {schemas : List (String × Schema)}
    {entry : String × KnownTypes} (h : entry ∈ knownTypes schemas) :
    entry.1 ∈ schemas.map Prod.fst := by
  obtain ⟨⟨name, s⟩, hmem, hentry⟩ := List.mem_filterMap.mp h
  dsimp only at hentry
  split_ifs at hentry
  obtain rfl := Option.some.inj hentry
  exact List.mem_map_of_mem (f := Prod.fst) hmem

section Append

variable {A B : List (String × Schema)} {ss ts : List Statement}

/-- Of models with different names each keeps its schema. -/
theorem lookup_append_of_keys (hkeys : ((A ++ B).map Prod.fst).Nodup) :
    (∀ name ∈ A.map Prod.fst, (A ++ B).lookup name = A.lookup name) ∧
      ∀ name ∈ B.map Prod.fst, (A ++ B).lookup name = B.lookup name := by
  obtain ⟨-, -, hdisjoint⟩ := List.nodup_append.mp (List.map_append ▸ hkeys)
  constructor
  · intro name hname
    obtain ⟨entry, hentry, rfl⟩ := List.mem_map.mp hname
    have hsome : (A.lookup entry.1).isSome :=
      List.lookup_isSome_iff.mpr ⟨entry, hentry, beq_self_eq_true _⟩
    rw [List.lookup_append, Option.or_of_isSome hsome]
  · intro name hname
    have hnone : A.lookup name = none :=
      Entries.lookup_of_not_mem fun hmem => hdisjoint name hmem name hname rfl
    rw [List.lookup_append, hnone, Option.none_or]

/-- In two files in a row a name that one of them does not have is looked up in the other. -/
theorem lookups_append {name : String} :
    (interface? ts name = none ∧ alias? ts name = none →
      interface? (ss ++ ts) name = interface? ss name ∧ alias? (ss ++ ts) name = alias? ss name) ∧
    (interface? ss name = none ∧ alias? ss name = none →
      interface? (ss ++ ts) name = interface? ts name ∧ alias? (ss ++ ts) name = alias? ts name) := by
  have hinterface : interface? (ss ++ ts) name = (interface? ss name).or (interface? ts name) :=
    List.findSome?_append
  have halias : alias? (ss ++ ts) name = (alias? ss name).or (alias? ts name) :=
    List.findSome?_append
  rw [hinterface, halias]
  constructor
  · rintro ⟨hi, ha⟩
    rw [hi, ha, Option.or_none, Option.or_none]
    exact ⟨rfl, rfl⟩
  · rintro ⟨hi, ha⟩
    rw [hi, ha, Option.none_or, Option.none_or]
    exact ⟨rfl, rfl⟩

/-- A file and a body behind it are patched each by itself, when the patch of neither looks up a
name of the other. -/
theorem keptEdits_append (hkeys : ((A ++ B).map Prod.fst).Nodup) (isPatched : Bool)
    (hA : isPatched = true → ∀ name, LooksUp A name →
      interface? ts name = none ∧ alias? ts name = none)
    (hB : isPatched = true → ∀ name, LooksUp B name →
      interface? ss name = none ∧ alias? ss name = none)
    (hreadable : OptionsReadable A (knownTypes A))
    (horder : ∀ p ∈ allProperties ss, ∀ q ∈ allProperties ts, p.typeStart < q.typeStart) :
    keptEdits isPatched (ss ++ ts) (A ++ B) = keptEdits isPatched ss A ++ keptEdits isPatched ts B := by
  cases isPatched with
  | false => rfl
  | true =>
    obtain ⟨hlookupA, hlookupB⟩ := lookup_append_of_keys hkeys
    have hfirst : patchEdits (ss ++ ts) (A ++ B) (knownTypes A) =
        patchEdits ss A (knownTypes A) :=
      patchEdits_congr fun entry hentry => modelEdits_congr
        (fun name hname => lookups_append.1 (hA rfl name ⟨entry, hentry, hname⟩))
        (hlookupA _ (mem_keys_of_mem_knownTypes hentry))
    have hsecond : patchEdits (ss ++ ts) (A ++ B) (knownTypes B) =
        patchEdits ts B (knownTypes B) :=
      patchEdits_congr fun entry hentry => modelEdits_congr
        (fun name hname => lookups_append.2 (hB rfl name ⟨entry, hentry, hname⟩))
        (hlookupB _ (mem_keys_of_mem_knownTypes hentry))
    have hnone : (patchEdits (ss ++ ts) (A ++ B) (knownTypes A)).2 = none := by
      rw [hfirst]
      exact patchEdits_eq_none_iff.mpr hreadable
    have hknown : knownTypes (A ++ B) = knownTypes A ++ knownTypes B := List.filterMap_append
    -- the edits of the body stand behind those of the file, and so they are kept behind them
    have hbehind : ∀ e ∈ (patchEdits ts B (knownTypes B)).1, ∀ f ∈ keptEdits true ss A,
        f.start < e.start := by
      intro e he f hf
      obtain ⟨q, hq, hstart, -⟩ := exists_property_of_mem_edits he
      obtain ⟨p, hp, hstart', -⟩ := exists_property_of_mem_keptEdits hf
      rw [hstart, hstart']
      exact horder p hp q hq
    have hkept := foldl_insertEdit_append [] hbehind
    simp only [keptEdits, if_true] at hkept ⊢
    rw [hknown, patchEdits_append hnone, hfirst, hsecond, List.foldl_append, ← hkept,
      List.append_nil]

end Append

/-- What is not found is not found where the statements are alike. -/
theorem lookups_eq_none_of_like {R : Property → Property → Prop} {ss ts : List Statement}
    (h : Forall₂ (Statement.Like R) ss ts) {name : String}
    (hnone : interface? ss name = none ∧ alias? ss name = none) :
    interface? ts name = none ∧ alias? ts name = none := by
  have hinterface := interface?_like h name
  have halias := alias?_like h name
  rw [hnone.1] at hinterface
  rw [hnone.2] at halias
  generalize interface? ts name = found at hinterface ⊢
  generalize alias? ts name = found' at halias ⊢
  cases hinterface
  cases halias
  exact ⟨rfl, rfl⟩

/-- The edits of two bodies, and those of the first with the second moved behind it. -/
theorem exists_keptEdits_append {A B : List (String × Schema)}
    (hkeys : ((A ++ B).map Prod.fst).Nodup) {head a b x : List Char} {d e : Statements}
    (ha : IsBody head a d) (hb : IsBody head b e) (hx : head.length + a.length ≤ x.length)
    (isPatched : Bool)
    (hA : isPatched = true → ∀ name, LooksUp A name →
      interface? e.statements name = none ∧ alias? e.statements name = none)
    (hB : isPatched = true → ∀ name, LooksUp B name →
      interface? d.statements name = none ∧ alias? d.statements name = none)
    (hreadable : OptionsReadable A (knownTypes A)) :
    ∃ ga gb : List Edit, (∀ g ∈ ga, g.start ≤ a.length ∧ g.stop ≤ a.length) ∧
      (∀ g ∈ gb, g.start ≤ b.length ∧ g.stop ≤ b.length) ∧
      keptEdits isPatched d.statements A = ga.map (Edit.shift head.length) ∧
      keptEdits isPatched e.statements B = gb.map (Edit.shift head.length) ∧
      keptEdits isPatched (d.statements ++
          (e.move (Move.between (pieces head) (pieces x)).relocation).statements) (A ++ B) =
        ga.map (Edit.shift head.length) ++ gb.map (Edit.shift x.length) := by
  obtain ⟨ga, hga, hkeptA, -⟩ := exists_keptEdits ha isPatched A x
  obtain ⟨gb, hgb, hkeptB, hmoved⟩ := exists_keptEdits hb isPatched B x
  refine ⟨ga, gb, hga, hgb, hkeptA, hkeptB, ?_⟩
  rw [← hkeptA, ← hmoved]
  refine keptEdits_append hkeys isPatched (fun hp name hlooks => ?_) hB hreadable
    fun p hp q hq => ?_
  · exact lookups_eq_none_of_like (hb.like_move x) (hA hp name hlooks)
  · have hfirst := ha.span_le hp
    have hsecond := (hb.move x).span_le hq
    omega

/-! ## Tickets and notes -/

/-- A ticket that has nothing but a text of a declared type. -/
def typedSchema : Schema :=
  { tree := [("text", .virtual ⟨"text", [], [], some "number"⟩)]
    options := [("_id", .bool false), ("version_key", .bool false)]
    methods := []
    statics := []
    query := []
    virtuals := [("text", ⟨"text", [], [], some "number"⟩)]
    children := [] }

theorem isWritable_typedSchema : typedSchema.IsWritable IsInline "Ticket" where
  names := Schema.every_iff.mpr ⟨⟨⟨by decide, by decide, fun _ h => nomatch h⟩, trivial,
    trivial⟩, trivial⟩
  isEnum := by
    rintro value (⟨hcompiles, hrenders⟩ | ⟨htype, -⟩)
    · obtain ⟨rfl, rfl⟩ := hcompiles.eq_self rfl
      have htree : typedSchema.boundTree "Ticket" = typedSchema.tree := rfl
      rw [htree] at hrenders
      refine absurd hrenders (not_rendersEnum ?_)
      exact ⟨rfl, trivial, trivial⟩
    · exact nomatch htype

theorem isWritable_noteSchema (owner : String) : noteSchema.IsWritable IsInline owner where
  names := hasNames_noteSchema
  isEnum := by
    rintro value (⟨hcompiles, hrenders⟩ | ⟨htype, -⟩)
    · obtain ⟨rfl, rfl⟩ := hcompiles.eq_self rfl
      exact absurd hrenders not_renders_noteSchema
    · exact nomatch htype

/-- What is known of a ticket. -/
def textTypes : KnownTypes :=
  ⟨[], [], [], [("text", "number")]⟩

theorem looksUp_ticket {s : Schema} (h : s.knownTypes = textTypes) {name : String}
    (hname : LooksUp [("Ticket", s)] name) : name = "TicketDocument" ∨ name = "Ticket" := by
  obtain ⟨entry, hentry, hname⟩ := hname
  have hknown : knownTypes [("Ticket", s)] = [("Ticket", textTypes)] := by
    simp [knownTypes, h, textTypes, KnownTypes.isEmpty]
  rw [hknown] at hentry
  obtain rfl := List.mem_singleton.mp hentry
  simpa [patchedNames, textTypes, KnownTypes.signatures] using hname

/-- Models that can be written have a file without characters that have no meaning. -/
theorem exists_file_of_allWritable {schemas : List (String × Schema)} (hne : schemas ≠ [])
    (h : AllWritable IsInline schemas) {chunks : List (List Item)}
    (hchunks : itemChunks schemas = .ok chunks) :
    ∃ file, generateTypes schemas ⟨false, []⟩ = .ok file ∧ NoOther file.fullText ∧
      file.declaredNames false = chunks.flatten.flatMap (·.scopeNames false) := by
  have htexts : modelTexts false schemas = .ok (chunks.map (chunkText false)) := by
    rw [modelTexts_eq false h.ne_empty, hchunks]
    rfl
  have hstatements := isStatements_chunks false (h.reads (fun _ h => h.isQuotable) hchunks)
  obtain ⟨ss, hfile, hother, -⟩ := exists_file_of_isStatements hne htexts hstatements
  obtain ⟨file, hfile', hnames⟩ := declaredNames_generateTypes hne h hchunks false
  obtain rfl := Except.ok.inj (hfile.symm.trans hfile')
  exact ⟨_, hfile, hother, hnames⟩

/-! ## Models by themselves -/

/-- The file of some models, which is no augmentation, can be read, every character of it has a
meaning, and generating it leaves the schemas as they are. -/
structure HasPlainFile (schemas : List (String × Schema)) (file : SourceFile) : Prop where
  staysIntact : ∀ entry ∈ schemas, entry.2.StaysIntact
  generateTypes_eq : generateTypes schemas ⟨false, []⟩ = .ok file
  noOther : NoOther file.fullText

/-- Models are generated by themselves: when the files of some models and of others can be read,
every character of them has a meaning and the schemas stay as they are, the file of all of them has
the body of the first file and, behind an empty line, that of the second. With the known types put
in, neither file may declare a name that the patch looks up for a model of the other. -/
theorem generate_append {A B : List (String × Schema)} (hA : A ≠ []) (hB : B ≠ [])
    (hkeys : ((A ++ B).map Prod.fst).Nodup) {fileA fileB : SourceFile}
    (hfileA : HasPlainFile A fileA) (hfileB : HasPlainFile B fileB) (isPatched : Bool)
    (hnames : isPatched = true → (∀ name ∈ fileB.declaredNames false, ¬ LooksUp A name) ∧
      ∀ name ∈ fileA.declaredNames false, ¬ LooksUp B name) :
    ∃ a b, HasBody A isPatched a ∧ HasBody B isPatched b ∧
      HasBody (A ++ B) isPatched (a ++ "\n\n" ++ b) := by
  obtain ⟨textsA, dA, hneA, hstatementsA, hgeneratedA⟩ :=
    exists_generated hA hfileA.generateTypes_eq hfileA.noOther
  obtain ⟨textsB, dB, hneB, hstatementsB, hgeneratedB⟩ :=
    exists_generated hB hfileB.generateTypes_eq hfileB.noOther
  have htextA := toList_fileOf (bodyOf textsA)
  have htextB := toList_fileOf (bodyOf textsB)
  obtain ⟨eA, hbodyA, heA⟩ := (htextA ▸ hgeneratedA.isFile).exists_body isImportHead_fileHead
  obtain ⟨eB, hbodyB, heB⟩ := (htextB ▸ hgeneratedB.isFile).exists_body isImportHead_fileHead
  -- the file of all models is the first file, an empty line and the second body
  obtain ⟨x, hx⟩ : ∃ x, x = fileHead.toList ++ (bodyOf textsA).toList ++ ['\n', '\n'] := ⟨_, rfl⟩
  have hfirst : x = (fileOf (bodyOf textsA)).toList ++ ['\n'] := by simp [hx, htextA]
  have htext : (fileOf (bodyOf (textsA ++ textsB))).toList =
      x ++ (bodyOf textsB).toList ++ ['\n'] := by
    rw [toList_fileOf, bodyOf_append hneA hneB, hx]
    simp
  have hwhole : Generated (A ++ B) (textsA ++ textsB)
      (dA.append (eB.move (Move.between (pieces fileHead.toList) (pieces x)).relocation)) := by
    refine ⟨modelTexts_append false hgeneratedA.modelTexts_eq hgeneratedB.modelTexts_eq, ?_⟩
    rw [htext]
    exact (hfirst ▸ hgeneratedA.isFile.concat_line).append_body (hfirst ▸ endsLine_concat _)
      (hbodyB.move x)
  obtain ⟨ga, gb, hga, hgb, hkeptA, hkeptB, hkept⟩ := exists_keptEdits_append hkeys hbodyA hbodyB
    (x := x) (by simp [hx]) isPatched
    (fun hp name hlooks => heB ▸ hstatementsB ▸
      lookups_eq_none fun hname => (hnames hp).1 name hname hlooks)
    (fun hp name hlooks => heA ▸ hstatementsA ▸
      lookups_eq_none fun hname => (hnames hp).2 name hname hlooks)
    (optionsReadable_of_modelTexts hgeneratedA.modelTexts_eq _)
  refine ⟨String.ofList (applyEdits (bodyOf textsA).toList 0 ga),
    String.ofList (applyEdits (bodyOf textsB).toList 0 gb), hgeneratedA.hasBody hA ?_,
    hgeneratedB.hasBody hB ?_, hwhole.hasBody (by simp [hA]) ?_⟩
  · rw [htextA, ← heA, hkeptA, applyEdits_behind_head _ hga, toList_fileOf, String.toList_ofList]
  · rw [htextB, ← heB, hkeptB, applyEdits_behind_head _ hgb, toList_fileOf, String.toList_ofList]
  · have hedits : applyEdits x 0 (ga.map (Edit.shift fileHead.toList.length)) =
        fileHead.toList ++ applyEdits (bodyOf textsA).toList 0 ga ++ ['\n', '\n'] := by
      rw [hx, applyEdits_behind_head _ hga]
    have hbounds : ∀ e ∈ ga.map (Edit.shift fileHead.toList.length),
        e.start ≤ x.length ∧ e.stop ≤ x.length := by
      intro e he
      obtain ⟨g, hg, rfl⟩ := List.mem_map.mp he
      have hspan := hga g hg
      have hlength : fileHead.toList.length + (bodyOf textsA).toList.length ≤ x.length := by
        simp [hx]
      simp only [Edit.shift]
      omega
    rw [htext, Statements.statements_append, ← heA, hkept, applyEdits_body x _ _ hbounds hgb, hedits,
      toList_fileOf]
    simp

/-- A ticket and a note are generated by themselves. -/
theorem generate_append_ticket :
    ∃ a b, HasBody [("Ticket", typedSchema)] true a ∧ HasBody [("Note", noteSchema)] true b ∧
      HasBody ([("Ticket", typedSchema)] ++ [("Note", noteSchema)]) true (a ++ "\n\n" ++ b) := by
  have hticket : AllWritable IsInline [("Ticket", typedSchema)] :=
    List.forall_mem_singleton.mpr ⟨by decide, isWritable_typedSchema⟩
  have hnote : AllWritable IsInline [("Note", noteSchema)] :=
    List.forall_mem_singleton.mpr ⟨by decide, isWritable_noteSchema "Note"⟩
  have hchunks : itemChunks [("Note", noteSchema)] = .ok
      [noteSchema.leanItems "Note" [] false, noteSchema.documentItems "Note" [] false] := rfl
  obtain ⟨chunks, hchunks'⟩ : ∃ chunks, itemChunks [("Ticket", typedSchema)] = .ok chunks :=
    ⟨_, rfl⟩
  obtain ⟨fileA, hfileA, hotherA, -⟩ :=
    exists_file_of_allWritable (List.cons_ne_nil _ _) hticket hchunks'
  obtain ⟨fileB, hfileB, hotherB, hnamesB⟩ :=
    exists_file_of_allWritable (List.cons_ne_nil _ _) hnote hchunks
  refine generate_append (List.cons_ne_nil _ _) (List.cons_ne_nil _ _) (by decide)
    ⟨List.forall_mem_singleton.mpr (Schema.staysIntact_of_children rfl), hfileA, hotherA⟩
    ⟨List.forall_mem_singleton.mpr (Schema.staysIntact_of_children rfl), hfileB, hotherB⟩ true
    fun _ => ⟨?_, ?_⟩
  · rw [hnamesB]
    have hother : ∀ name ∈ [noteSchema.leanItems "Note" [] false,
        noteSchema.documentItems "Note" [] false].flatten.flatMap (·.scopeNames false),
        name ≠ "TicketDocument" ∧ name ≠ "Ticket" := by decide +kernel
    exact fun name hname hlooks => (looksUp_ticket rfl hlooks).elim (hother name hname).1
      (hother name hname).2
  · rintro name - ⟨entry, hentry, -⟩
    exact nomatch hentry

/-! ## A ticket that hides itself -/

/-- Where no name is found that a patch looks up, no edit is kept. -/
theorem keptEdits_eq_nil {ss : List Statement} {schemas : List (String × Schema)} (isPatched : Bool)
    (h : ∀ name, LooksUp schemas name → interface? ss name = none ∧ alias? ss name = none) :
    keptEdits isPatched ss schemas = [] := by
  have hedits : patchEdits ss schemas (knownTypes schemas) =
      patchEdits [] schemas (knownTypes schemas) :=
    patchEdits_congr fun entry hentry => modelEdits_congr
      (fun name hname => h name ⟨entry, hentry, hname⟩) rfl
  have hkept : keptEdits isPatched ss schemas = keptEdits isPatched [] schemas := by
    unfold keptEdits
    rw [hedits]
  refine List.eq_nil_iff_forall_not_mem.mpr fun e he => ?_
  obtain ⟨p, hp, -⟩ := exists_property_of_mem_keptEdits (hkept ▸ he)
  exact nomatch hp

/-- Where a patch finds nothing, the body is that of the texts. -/
theorem HasBody.eq_bodyOf {schemas : List (String × Schema)} {isPatched : Bool} {body : String}
    {texts : List String} {ss : List Statement} (h : HasBody schemas isPatched body)
    (htexts : modelTexts false schemas = .ok texts)
    (hfile : generateTypes schemas ⟨false, []⟩ = .ok ⟨fileOf (bodyOf texts), [], ss⟩)
    (hnone : ∀ name, LooksUp schemas name → interface? ss name = none ∧ alias? ss name = none) :
    body = bodyOf texts := by
  have hedits := h.applyEdits_eq htexts hfile
  rw [keptEdits_eq_nil isPatched hnone, applyEdits, List.drop_zero, toList_fileOf,
    toList_fileOf] at hedits
  exact (String.toList_inj.mp (List.append_cancel_left (List.append_cancel_right hedits))).symm

/-- The patch takes the text of an interface with the name of a ticket's documents for that of a
ticket. -/
theorem keptEdits_hidingSchema {ss : List Statement} {p : Property}
    (hfound : interface? ss "TicketDocument" = some [p]) (hname : p.name = "text") :
    keptEdits true ss ([("Ticket", hidingSchema)] ++ [("TicketDocument", noteSchema)]) =
      [⟨p.typeStart, p.typeEnd, "number"⟩] := by
  have hknown : knownTypes ([("Ticket", hidingSchema)] ++ [("TicketDocument", noteSchema)]) =
      [("Ticket", textTypes)] := rfl
  have hfunctions : ∀ role, functionEdits ss "Ticket" textTypes role = [] := fun role =>
    functionEdits_eq_nil (by cases role <;> rfl)
  have hvirtuals : virtualEdits ss "TicketDocument" textTypes =
      [⟨p.typeStart, p.typeEnd, "number"⟩] := by
    have hlookup : knownFor? textTypes.virtuals p.name = some "number" := by
      rw [hname]
      rfl
    simp [virtualEdits, propertyEdits, hfound, hlookup]
  have hincluded : includesVirtuals hidingSchema.options = .ok false := rfl
  have hdocument : "Ticket" ++ "Document" = "TicketDocument" := by decide
  have hnonempty : textTypes.virtuals.isEmpty = false := rfl
  rw [keptEdits, hknown]
  simp [patchEdits, modelEdits, hfunctions, hnonempty, hincluded, hdocument, hvirtuals, insertEdit]

/-- What the file of notes under the name of a ticket's documents says in front of that name. -/
def noteOutlines : List Outline :=
  (noteSchema.modelItems "TicketDocument").flatMap (·.outlines false)

theorem isStatements_noteSchema :
    ∃ texts, modelTexts false [("TicketDocument", noteSchema)] = .ok texts ∧
      IsStatements (spaced texts).toList (noteOutlines ++
        [.interface "TicketDocument" true [⟨"text", true, "string"⟩],
          .interface "TicketDocumentDocument" true [⟨"text", true, "string"⟩]]) := by
  have hwritable : AllWritable IsInline [("TicketDocument", noteSchema)] :=
    List.forall_mem_singleton.mpr ⟨by decide, isWritable_noteSchema _⟩
  have hchunks : itemChunks [("TicketDocument", noteSchema)] =
      .ok [noteSchema.leanItems "TicketDocument" [] false,
        noteSchema.documentItems "TicketDocument" [] false] := rfl
  have hstatements := isStatements_chunks false (hwritable.reads (fun _ h => h.isQuotable) hchunks)
  have htree : noteSchema.boundTree "TicketDocument" = [("text", .tag .string)] := rfl
  have hmembers : ∀ shape, (Member.ofFields ⟨shape, false⟩ [("text", .tag .string)]).map
      (·.outline shape 0) = [⟨"text", true, "string"⟩] := by
    intro shape
    cases shape <;> rfl
  have hname : "TicketDocument" ++ "Document" = "TicketDocumentDocument" := by decide
  have houtlines : [noteSchema.leanItems "TicketDocument" [] false,
      noteSchema.documentItems "TicketDocument" [] false].flatten.flatMap (·.outlines false) =
      noteOutlines ++ [.interface "TicketDocument" true [⟨"text", true, "string"⟩],
        .interface "TicketDocumentDocument" true [⟨"text", true, "string"⟩]] := by
    simp only [Schema.leanItems, Schema.documentItems, Schema.leanInterface, Schema.documentInterface,
      htree, List.flatten_cons, List.flatten_nil, List.map_nil, List.nil_append, List.append_nil,
      List.flatMap_append, List.flatMap_cons, List.flatMap_nil, Item.interface, Item.outlines,
      hmembers, hname, Bool.not_false, noteOutlines, List.append_assoc, List.singleton_append]
  rw [houtlines] at hstatements
  exact ⟨_, (modelTexts_eq false (by simp)).trans (congrArg (Except.map _) hchunks), hstatements⟩

/-- Different names are not enough: a ticket that is declared in module blocks declares none of the
names that its patch looks up, and the patch then finds another model under one of them. -/
theorem generate_append_fails :
    (Schema.build
        (.dict [("state", .dict [("type", .tag .string), ("enum", .list [.text closingValue])]),
          ("note", .schema openingSchema)])
        .null [("_id", .bool false), ("version_key", .bool false)]).map
      (·.declareVirtual "text" [] [] (some "number")) = .ok hidingSchema ∧
    ([("Ticket", hidingSchema), ("TicketDocument", noteSchema)].map Prod.fst).Nodup ∧
    ∃ fileA fileB, generateTypes [("Ticket", hidingSchema)] ⟨false, []⟩ = .ok fileA ∧
      generateTypes [("TicketDocument", noteSchema)] ⟨false, []⟩ = .ok fileB ∧
      NoOther fileA.fullText ∧ NoOther fileB.fullText ∧
      (∀ name ∈ fileA.declaredNames false, name ∉ fileB.declaredNames false) ∧
      ¬ ∃ a b, HasBody [("Ticket", hidingSchema)] true a ∧
        HasBody [("TicketDocument", noteSchema)] true b ∧
        HasBody ([("Ticket", hidingSchema)] ++ [("TicketDocument", noteSchema)]) true
          (a ++ "\n\n" ++ b) := by
  obtain ⟨textsA, htextsA, hsayA⟩ := isStatements_hidingSchema
  obtain ⟨textsB, htextsB, hsayB⟩ := isStatements_noteSchema
  have htexts := modelTexts_append false htextsA htextsB
  have hsay := hsayA.append hsayB (parted_spaced _ _)
  rw [← String.toList_append, ← spaced_append] at hsay
  obtain ⟨ssA, hfileA, hotherA, houtlineA⟩ :=
    exists_file_of_isStatements (List.cons_ne_nil _ _) htextsA hsayA
  obtain ⟨ssB, hfileB, hotherB, houtlineB⟩ :=
    exists_file_of_isStatements (List.cons_ne_nil _ _) htextsB hsayB
  obtain ⟨ss, hfile, -, houtline⟩ := exists_file_of_isStatements (by simp) htexts hsay
  have hnamesA := SourceFile.declaredNames_of_outline houtlineA
  have hnamesB := SourceFile.declaredNames_of_outline houtlineB
  refine ⟨rfl, by decide, _, _, hfileA, hfileB, hotherA, hotherB, ?_, ?_⟩
  · rw [hnamesA, hnamesB]
    decide +kernel
  rintro ⟨a, b, ha, hb, hab⟩
  -- by itself neither file has anything that its patch looks up
  obtain rfl := ha.eq_bodyOf htextsA hfileA fun name hname => by
    have hundeclared : name ∉ (hidingOutlines.map Outline.heading).filterMap Heading.declared? := by
      rcases looksUp_ticket rfl hname with rfl | rfl <;> decide +kernel
    rw [← hnamesA] at hundeclared
    exact lookups_eq_none hundeclared
  obtain rfl := hb.eq_bodyOf htextsB hfileB fun name ⟨entry, hentry, _⟩ => nomatch hentry
  -- in the file of both, the patch of the ticket finds the interface of the notes
  obtain ⟨ps, hfound, hps⟩ := exists_interface?_of_outlines
    (houtline.trans (List.append_assoc hidingOutlines noteOutlines _).symm) (by decide +kernel)
  obtain ⟨p, rfl⟩ : ∃ p, ps = [p] :=
    List.length_eq_one_iff.mp (by simpa using congrArg List.length hps)
  obtain ⟨hname, -, htype⟩ := PropertyOutline.mk.inj (List.singleton_inj.mp hps)
  have hedits := hab.applyEdits_eq htexts hfile
  obtain ⟨first, rest, rfl⟩ := exists_cons_of_modelTexts (List.cons_ne_nil _ _) htextsA
  obtain ⟨first', rest', rfl⟩ := exists_cons_of_modelTexts (List.cons_ne_nil _ _) htextsB
  rw [keptEdits_hidingSchema hfound hname,
    ← bodyOf_append (List.cons_ne_nil _ _) (List.cons_ne_nil _ _)] at hedits
  have hspan := congrArg String.toList ((typeText_eq_slice _ ss p).symm.trans htype)
  rw [String.toList_ofList] at hspan
  have hsame : "string".toList = "number".toList :=
    hspan.symm.trans (eq_of_applyEdits_singleton (by rw [hspan]; decide) hedits)
  exact absurd hsame (by decide)

end SchemaTypings
