import SchemaTypings.Proofs.Editing.FailedAppend
import SchemaTypings.Proofs.Generation.Bodies
import SchemaTypings.Proofs.Generation.Writable

/-!
# Where the known types of virtuals arrive

A virtual is registered under a dotted name. In the tree each segment of the name is a step down,
and so it is in the declarations: the virtual is a member of the object type that stands for the
last step but one (`typesAt`). The patch goes by the names of the members of the interface itself
(`members?_patch`). A known type therefore arrives when the name is one segment and is read back as
it is, and any other virtual keeps the type that was written for it (`generate_virtuals`).
-/

namespace SchemaTypings

open Declaration

/-! ## Members at a path -/

namespace Declaration

/-- The members of the first interface of a name among the generated statements. -/
def SourceFile.members? (f : SourceFile) (isAugmented : Bool) (interface : String) :
    Option (List PropertyOutline) :=
  (interface? (f.root isAugmented) interface).map (List.map (Property.outline f.typeText))

/-- The members of an object type: those of an interface with this body. -/
def objectMembers (type : String) : List PropertyOutline :=
  match (SourceFile.ofText ("interface Body " ++ type)).map SourceFile.outline with
  | .ok [.interface _ _ members] => members
  | _ => []

/-- The types of the members at a path. The members of its first name are among the given ones, and
those behind it are members of their types. -/
def typesAt : List PropertyOutline → List String → List String
  | _, [] => []
  | members, [name] => (members.filter (·.name = name)).map (·.type)
  | members, name :: next :: rest =>
    (members.filter (·.name = name)).flatMap fun m => typesAt (objectMembers m.type) (next :: rest)

end Declaration

/-- The names that are read on the way to the member of a virtual. -/
def memberPath (name : String) : List String :=
  (pathSegments name).map keyName

/-- The interfaces of a model that hold its virtuals: that of its documents, and that of its plain
data when virtuals are kept there. -/
inductive Schema.HoldsVirtuals (s : Schema) (model : String) : String → Prop
  | document : s.HoldsVirtuals model (model ++ "Document")
  | lean : includesVirtuals s.options = .ok true → s.HoldsVirtuals model model

/-- A member with the type that is known of its name. -/
def Declaration.PropertyOutline.retype (known : List (String × String)) (m : PropertyOutline) :
    PropertyOutline :=
  { m with type := (knownFor? known m.name).getD m.type }

section Retyped

variable {known : List (String × String)} (members : List PropertyOutline) {name : String}

theorem filter_retype :
    (members.map (·.retype known)).filter (·.name = name) =
      (members.filter (·.name = name)).map (·.retype known) :=
  List.filter_map

/-- Members whose type is known get it. -/
theorem typesAt_retype_of_some {type : String} (h : knownFor? known name = some type) :
    typesAt (members.map (·.retype known)) [name] = (typesAt members [name]).map fun _ => type := by
  rw [typesAt, typesAt, filter_retype, List.map_map, List.map_map]
  refine List.map_congr_left fun m hm => ?_
  have hname : m.name = name := by simpa using (List.mem_filter.mp hm).2
  simp [PropertyOutline.retype, hname, h]

/-- Members whose type is not known keep it, with all that stands in it. -/
theorem typesAt_retype_of_none (h : knownFor? known name = none) (rest : List String) :
    typesAt (members.map (·.retype known)) (name :: rest) = typesAt members (name :: rest) := by
  have hsame : (members.map (·.retype known)).filter (·.name = name) =
      members.filter (·.name = name) := by
    rw [filter_retype]
    refine (List.map_congr_left fun m hm => ?_).trans (List.map_id _)
    obtain rfl : m.name = name := by simpa using (List.mem_filter.mp hm).2
    rw [PropertyOutline.retype, h, Option.getD_none]
    rfl
  cases rest with
  | nil => rw [typesAt, typesAt, hsame]
  | cons next rest => rw [typesAt, typesAt, hsame]

end Retyped

/-! ## What is known of models -/

section Known

variable {schemas : List (String × Schema)} {model : String} {types : KnownTypes}

theorem mem_knownTypes :
    (model, types) ∈ knownTypes schemas ↔
      ∃ s, (model, s) ∈ schemas ∧ s.knownTypes = types ∧ types.isEmpty = false := by
  simp only [knownTypes, List.mem_filterMap, Prod.exists, ite_eq_iff, reduceCtorEq, and_false,
    Option.some.injEq, Prod.mk.injEq, false_or]
  constructor
  · rintro ⟨_, s, hs, hempty, rfl, rfl⟩
    exact ⟨s, hs, rfl, by simpa using hempty⟩
  · rintro ⟨s, hs, rfl, hempty⟩
    exact ⟨model, s, hs, by simpa using hempty, rfl, rfl⟩

/-- A schema with a known virtual is one of which something is known. -/
theorem isEmpty_knownTypes {s : Schema} {name type : String}
    (h : s.knownVirtuals.lookup name = some type) : s.knownTypes.isEmpty = false := by
  have hne : s.knownVirtuals ≠ [] := by
    rintro hnil
    rw [hnil] at h
    exact nomatch h
  simp [KnownTypes.isEmpty, Schema.knownTypes, hne]

/-- The names of the interfaces of some models. -/
def interfaceNames (schemas : List (String × Schema)) : List String :=
  schemas.flatMap fun entry => [entry.1, entry.1 ++ "Document"]

theorem nodup_keys_of_interfaceNames (h : (interfaceNames schemas).Nodup) :
    (Entries.keys schemas).Nodup := by
  refine h.sublist ?_
  induction schemas with
  | nil => exact .refl _
  | cons entry rest ih =>
    obtain ⟨-, hrest, -⟩ := List.nodup_append.mp h
    exact (List.Sublist.cons _ (ih hrest)).cons_cons _

/-- No model has the name of another's documents. -/
theorem document_notMem_of_interfaceNames (h : (interfaceNames schemas).Nodup) :
    ∀ model ∈ Entries.keys schemas, model ++ "Document" ∉ Entries.keys schemas := by
  intro model hmodel hdocument
  obtain ⟨entry, hentry, rfl⟩ := List.mem_map.mp hmodel
  obtain ⟨other, hother, hname⟩ := List.mem_map.mp hdocument
  have hne : entry ≠ other := by
    rintro rfl
    have hlength := congrArg String.length hname
    simp at hlength
  have hsymm : Std.Symm (Function.onFun List.Disjoint
      fun entry : String × Schema => [entry.1, entry.1 ++ "Document"]) :=
    ⟨fun _ _ hdisjoint _ ha hb => hdisjoint hb ha⟩
  have hdisjoint := (List.nodup_flatMap.mp h).2.forall hentry hother hne
  exact hdisjoint (a := entry.1 ++ "Document") (by simp) (by simp [hname])

/-- The names of the models of which something is known. -/
theorem keys_knownTypes_sublist (schemas : List (String × Schema)) :
    (Entries.keys (knownTypes schemas)).Sublist (Entries.keys schemas) := by
  induction schemas with
  | nil => exact .refl _
  | cons entry rest ih =>
    by_cases hempty : entry.2.knownTypes.isEmpty
    · simpa [knownTypes, Entries.keys, hempty] using ih.cons entry.1
    · simpa [knownTypes, Entries.keys, hempty] using ih.cons_cons entry.1

end Known

/-! ## What a patch leaves -/

/-- Edits give a property the text of the last one made to it. -/
theorem Declaration.SourceFile.IsOrderly.typeText_edit {f : SourceFile} (h : f.IsOrderly)
    {edits : List Edit}
    (hedits : ∀ e ∈ edits, ∃ p ∈ allProperties f.statements, e.start = p.typeStart ∧
      e.stop = p.typeEnd) {p : Property} (hp : p ∈ allProperties f.statements) :
    (f.edit edits).typeText p =
      ((edits.reverse.find? (·.start = p.typeStart)).map Edit.text).getD (f.typeText p) := by
  -- the edits are made to types, as the pending ones are
  have horderly : (f.edit edits).IsOrderly := by
    rw [SourceFile.edit_eq]
    refine ⟨h.span_lt, h.apart, foldl_insertEdit_sorted edits h.sorted, fun e he => ?_⟩
    exact (mem_or_mem_of_mem_foldl he).elim (hedits e) (h.spans e)
  have hfind := find?_foldl_insertEdit edits f.edits p.typeStart
  rw [horderly.typeText_eq (by rw [SourceFile.edit_eq]; exact hp), h.typeText_eq hp,
    SourceFile.edit_eq, editedType, editedType, hfind]
  cases edits.reverse.find? (·.start = p.typeStart) with
  | some e => rfl
  | none => rfl

section Patched

variable {f : SourceFile} {schemas : List (String × Schema)} {known : List (String × KnownTypes)}
  {isAugmented : Bool}

/-- A patch gives a property the type that it receives, and leaves any other as it is. -/
theorem typeText_patch (isAugmented : Bool) (h : f.IsOrderly)
    (hreadable : OptionsReadable schemas known) (hnodup : (Entries.keys known).Nodup)
    (hnames : ∀ model ∈ Entries.keys known, model ++ "Document" ∉ Entries.keys known)
    {p : Property} (hp : p ∈ allProperties f.statements) :
    (∀ type, Receives (f.root isAugmented) schemas known p type →
        (patch f known schemas isAugmented).1.typeText p = type) ∧
      ((∀ type, ¬Receives (f.root isAugmented) schemas known p type) →
        (patch f known schemas isAugmented).1.typeText p = f.typeText p) := by
  have hroot := isRoot_root f isAugmented
  have hproperties := h.nodup_allProperties.sublist hroot.sublist
  have hedits : ∀ e ∈ (patchEdits (f.root isAugmented) schemas known).1, ∃ q type,
      Receives (f.root isAugmented) schemas known q type ∧ q ∈ allProperties f.statements ∧
        e = ⟨q.typeStart, q.typeEnd, type⟩ := fun e he => by
    obtain ⟨q, type, hq, rfl⟩ := (mem_patchEdits hreadable).mp he
    exact ⟨q, type, hq, hroot.sublist.subset hq.mem, rfl⟩
  have hspans : ∀ e ∈ (patchEdits (f.root isAugmented) schemas known).1,
      ∃ q ∈ allProperties f.statements, e.start = q.typeStart ∧ e.stop = q.typeEnd := fun e he => by
    obtain ⟨q, type, -, hq, rfl⟩ := hedits e he
    exact ⟨q, hq, rfl, rfl⟩
  rw [patch_eq, h.typeText_edit hspans hp]
  -- the last edit made at the place of the property, if there is one, is what it receives
  cases hfind : (patchEdits (f.root isAugmented) schemas known).1.reverse.find?
      (·.start = p.typeStart) with
  | some e =>
    have hmem := List.mem_reverse.mp (List.mem_of_find?_eq_some hfind)
    have hstart : e.start = p.typeStart := by simpa using List.find?_some hfind
    obtain ⟨q, type, hq, hqf, rfl⟩ := hedits e hmem
    obtain rfl := h.eq_of_typeStart_eq hqf hp hstart
    refine ⟨fun type' h' => ?_, fun hnone => absurd hq (hnone type)⟩
    exact hq.type_unique hnodup hnames hproperties h'
  | none =>
    refine ⟨fun type h' => ?_, fun _ => rfl⟩
    have hmem := (mem_patchEdits hreadable).mpr ⟨p, type, h', rfl⟩
    exact absurd (List.find?_eq_none.mp hfind _ (List.mem_reverse.mpr hmem)) (by simp)

variable {model interface : String} {s : Schema}

/-- A member of an interface that holds virtuals receives the type that is known of the virtual of
its name. -/
theorem receives_iff_of_holdsVirtuals (hnames : (interfaceNames schemas).Nodup)
    (hproperties : (allProperties (f.root isAugmented)).Nodup)
    (hs : (model, s) ∈ schemas) (hholds : s.HoldsVirtuals model interface) {ps : List Property}
    (hps : interface? (f.root isAugmented) interface = some ps) {p : Property} (hp : p ∈ ps)
    {type : String} :
    Receives (f.root isAugmented) schemas (knownTypes schemas) p type ↔
      knownFor? s.knownVirtuals p.name = some type := by
  have hnodup := nodup_keys_of_interfaceNames hnames
  have hlookup : schemas.lookup model = some s := Entries.lookup_of_mem hnodup hs
  obtain ⟨isExported, hfirst⟩ := interface?_eq_some_iff.mp hps
  rw [knownFor?_eq_some_iff]
  constructor
  · -- the interface that the member stands in tells the model
    intro h
    obtain ⟨m, types, hname, hmem, hknown, hne⟩ := h.of_interface hproperties hfirst.mem hp
    obtain ⟨t, ht, rfl, -⟩ := mem_knownTypes.mp hmem
    have hkey : m ∈ Entries.keys schemas := List.mem_map_of_mem (f := Prod.fst) ht
    have hmodel : model ∈ Entries.keys schemas := List.mem_map_of_mem (f := Prod.fst) hs
    have hdocument := document_notMem_of_interfaceNames hnames
    obtain rfl : m = model := by
      cases hholds with
      | document =>
        refine hname.elim (fun h => ((String.append_left_inj "Document").mp h).symm) fun h => ?_
        exact absurd (h ▸ hkey) (hdocument _ hmodel)
      | lean hincluded =>
        exact hname.elim (fun h => absurd (h ▸ hmodel) (hdocument _ hkey)) Eq.symm
    obtain rfl := Option.some.inj ((Entries.lookup_of_mem hnodup ht).symm.trans hlookup)
    exact ⟨hknown, hne⟩
  · rintro ⟨hknown, hne⟩
    have hmem : (model, s.knownTypes) ∈ knownTypes schemas :=
      mem_knownTypes.mpr ⟨s, hs, rfl, isEmpty_knownTypes hknown⟩
    cases hholds with
    | document => exact .document hmem hfirst hp hknown hne
    | lean hincluded => exact .lean hmem hlookup hincluded hfirst hp hknown hne

/-- After a patch the members of an interface that holds virtuals have the types that are known of
the virtuals of their names. -/
theorem members?_patch (h : f.IsOrderly)
    (hreadable : OptionsReadable schemas (knownTypes schemas))
    (hnames : (interfaceNames schemas).Nodup) (hs : (model, s) ∈ schemas)
    (hholds : s.HoldsVirtuals model interface) :
    (patch f (knownTypes schemas) schemas isAugmented).1.members? isAugmented interface =
      (f.members? isAugmented interface).map (List.map (·.retype s.knownVirtuals)) := by
  have hroot := (isRoot_root f isAugmented).sublist
  have hkeys := keys_knownTypes_sublist schemas
  have hnodup : (Entries.keys (knownTypes schemas)).Nodup :=
    (nodup_keys_of_interfaceNames hnames).sublist hkeys
  have hdocument : ∀ m ∈ Entries.keys (knownTypes schemas),
      m ++ "Document" ∉ Entries.keys (knownTypes schemas) := fun m hm hmem =>
    document_notMem_of_interfaceNames hnames m (hkeys.subset hm) (hkeys.subset hmem)
  -- a patch changes types only, so that the same interface is found before and after it
  have hsame : (patch f (knownTypes schemas) schemas isAugmented).1.root isAugmented =
      f.root isAugmented := by
    rw [patch_eq, SourceFile.edit_eq]
    rfl
  rw [SourceFile.members?, SourceFile.members?, hsame]
  cases hps : interface? (f.root isAugmented) interface with
  | none => rfl
  | some ps =>
    obtain ⟨isExported, hfirst⟩ := interface?_eq_some_iff.mp hps
    rw [Option.map_some, Option.map_some, Option.map_some, List.map_map]
    refine congrArg some (List.map_congr_left fun p hp => ?_)
    have hmem : p ∈ allProperties f.statements :=
      hroot.subset ((sublist_allProperties hfirst.mem).subset hp)
    obtain ⟨hsome, hnone⟩ := typeText_patch isAugmented h hreadable hnodup hdocument hmem
    have hreceives := @receives_iff_of_holdsVirtuals f schemas isAugmented model interface s hnames
      (h.nodup_allProperties.sublist hroot) hs hholds ps hps p hp
    cases hknown : knownFor? s.knownVirtuals p.name with
    | some type =>
      simp [Property.outline, PropertyOutline.retype, hknown, hsome type (hreceives.mpr hknown)]
    | none =>
      have hkept := hnone fun type hr => by simp [hknown] at hreceives; exact hreceives hr
      simp [Property.outline, PropertyOutline.retype, hknown, hkept]

end Patched

/-! ## Generated files -/

/-- What declares models is made of their texts. -/
theorem exists_modelTexts_of_generateTypes {schemas : List (String × Schema)} {o : GenerateOptions}
    {file : SourceFile} (h : generateTypes schemas o = .ok file) :
    ∃ texts text, modelTexts o.isAugmented schemas = .ok texts ∧
      SourceFile.ofText text = .ok file := by
  unfold generateTypes at h
  cases htext : declarationText schemas o with
  | error e => simp [htext, bind, Except.bind, Except.mapError] at h
  | ok text =>
    have hfile : SourceFile.ofText text = .ok file := by
      rw [htext] at h
      cases hread : SourceFile.ofText text <;>
        simp_all [bind, Except.bind, Except.mapError]
    unfold declarationText at htext
    cases htexts : modelTexts o.isAugmented schemas with
    | ok texts => exact ⟨texts, text, rfl, hfile⟩
    | error e =>
      cases haugmented : o.isAugmented <;> rw [haugmented] at htext htexts <;>
        simp [Scope.top, Scope.indented, SourceUnit.writeModels_eq, htexts, bind, Except.bind,
          Except.map] at htext

/-- What is generated with known types is the patched file. -/
theorem generate_eq_patch {schemas : List (String × Schema)} {o : GenerateOptions}
    {file : SourceFile} (h : generateTypes schemas o = .ok file)
    (hreadable : OptionsReadable schemas (knownTypes schemas)) :
    generate schemas o true = .ok (patch file (knownTypes schemas) schemas o.isAugmented).1 := by
  have hnone : (patch file (knownTypes schemas) schemas o.isAugmented).2 = none :=
    patchEdits_eq_none_iff.mpr hreadable
  unfold generate
  rw [h]
  cases hpatch : patch file (knownTypes schemas) schemas o.isAugmented with
  | mk patched failure =>
    obtain rfl : failure = none := by rw [hpatch] at hnone; exact hnone
    simp [bind, Except.bind, hpatch]
    rfl

/-- Where generating succeeds the known types are put in: the members of the interfaces that hold
virtuals get those that are known of the virtuals of their names. -/
theorem exists_patched {schemas : List (String × Schema)} {o : GenerateOptions} {file : SourceFile}
    (hfile : generateTypes schemas o = .ok file) (hnames : (interfaceNames schemas).Nodup) :
    ∃ patched, generate schemas o true = .ok patched ∧
      ∀ model s interface, (model, s) ∈ schemas → s.HoldsVirtuals model interface →
        patched.members? o.isAugmented interface =
          (file.members? o.isAugmented interface).map (List.map (·.retype s.knownVirtuals)) := by
  obtain ⟨texts, text, htexts, hread⟩ := exists_modelTexts_of_generateTypes hfile
  have hreadable := optionsReadable_of_modelTexts htexts (knownTypes schemas)
  have horderly := SourceFile.isOrderly_of_ofText hread
  exact ⟨_, generate_eq_patch hfile hreadable, fun model s interface hs hholds =>
    members?_patch horderly hreadable hnames hs hholds⟩

/-- A name without dots that is read back as it is written is the only step of its path. -/
theorem memberPath_eq_singleton {name : String} (hdot : '.' ∉ name.toList)
    (hplain : IsPlainName name) : memberPath name = [name] := by
  rw [memberPath, pathSegments_of_not_mem hdot, List.map_singleton, keyName_eq hplain]

/-- Where generating succeeds, the known types are put in, and of the virtuals that are members of
an interface of their model those arrive whose names are one step and read back as they are: every
member there has the known type. A virtual that is reached over another name keeps what was written
for it, unless that name is one of a virtual with a known type itself. -/
theorem generate_virtuals {schemas : List (String × Schema)} {o : GenerateOptions}
    {file : SourceFile} (hfile : generateTypes schemas o = .ok file)
    (hnames : (interfaceNames schemas).Nodup) :
    ∃ patched, generate schemas o true = .ok patched ∧
      ∀ model s interface members, (model, s) ∈ schemas → s.HoldsVirtuals model interface →
        file.members? o.isAugmented interface = some members →
        ∃ members', patched.members? o.isAugmented interface = some members' ∧
          ∀ name type, knownFor? s.knownVirtuals name = some type →
            (memberPath name = [name] →
              typesAt members' (memberPath name) =
                (typesAt members (memberPath name)).map fun _ => type) ∧
            ∀ first rest, memberPath name = first :: rest →
              knownFor? s.knownVirtuals first = none →
              typesAt members' (memberPath name) = typesAt members (memberPath name) := by
  obtain ⟨patched, hpatched, hmembers'⟩ := exists_patched hfile hnames
  refine ⟨patched, hpatched, fun model s interface members hs hholds hmembers => ?_⟩
  have hretyped := hmembers' model s interface hs hholds
  rw [hmembers] at hretyped
  refine ⟨_, hretyped, fun name type hknown => ⟨fun hpath => ?_, fun first rest hpath hnone => ?_⟩⟩
  · rw [hpath]
    exact typesAt_retype_of_some members hknown
  · rw [hpath]
    exact typesAt_retype_of_none members hnone rest

/-! ## A person with two names -/

/-- The members of the first interface of a name that an outline says. -/
def interfaceMembers? (outs : List Outline) (interface : String) : Option (List PropertyOutline) :=
  outs.findSome? fun
    | .interface name _ members => if name = interface then some members else none
    | _ => none

/-- In a file that is not augmented they are the members of the interface. -/
theorem members?_eq_interfaceMembers? (f : SourceFile) (interface : String) :
    f.members? false interface = interfaceMembers? f.outline interface := by
  rw [SourceFile.members?, SourceFile.outline, SourceFile.root, if_neg (by simp), interface?,
    interfaceMembers?]
  induction f.statements with
  | nil => rfl
  | cons s ss ih =>
    rw [outlines, List.findSome?_cons, List.findSome?_cons]
    cases s with
    | interface name isExported ps =>
      by_cases hname : name = interface
      · simp [Statement.outline, hname]
      · simpa [Statement.outline, hname] using ih
    | «alias» name isExported ps => exact ih
    | module name body => exact ih

/-- A person with a virtual of one step and one of two steps, both of a declared type. -/
def personSchema : Schema :=
  { tree := [("first", .tag .string), ("fullName", .virtual ⟨"fullName", [], [], some "string"⟩),
      ("name", .dict [("full", .virtual ⟨"name.full", [], [], some "string"⟩)])]
    options := [("_id", .bool false), ("version_key", .bool false)]
    methods := []
    statics := []
    query := []
    virtuals := [("fullName", ⟨"fullName", [], [], some "string"⟩),
      ("name.full", ⟨"name.full", [], [], some "string"⟩)]
    children := [] }

/-- Nothing of a person is enumerated. -/
theorem not_renders_person {value : String} : ¬RendersEnum personSchema.tree value :=
  not_rendersEnum ⟨rfl, trivial, trivial, ⟨rfl, trivial, trivial⟩, trivial⟩

theorem allWritable_person : AllWritable IsQuotable [("User", personSchema)] := by
  have hname : HasNames [("full", .virtual ⟨"name.full", [], [], some "string"⟩)] :=
    ⟨by decide, by decide, fun _ h => nomatch h⟩
  have hperson : HasNames personSchema.tree := ⟨by decide, by decide, fun _ h => nomatch h⟩
  have htree : personSchema.boundTree "User" = personSchema.tree := rfl
  refine List.forall_mem_singleton.mpr ⟨by decide, ?_, ?_⟩
  · exact Schema.every_iff.mpr ⟨⟨hperson, trivial, trivial, ⟨hname, trivial, trivial⟩, trivial⟩,
      trivial⟩
  · rintro value (⟨hcompiles, hrenders⟩ | ⟨htype, -⟩)
    · obtain ⟨rfl, rfl⟩ := hcompiles.eq_self rfl
      exact absurd (htree ▸ hrenders) not_renders_person
    · exact nomatch htype

/-- The members of the document of a person, as they are generated. -/
theorem exists_file_person : ∃ file, generateTypes [("User", personSchema)] ⟨false, []⟩ = .ok file ∧
    (file.declaredNames false).Nodup ∧
    file.members? false "UserDocument" = some [⟨"first", true, "string"⟩,
      ⟨"fullName", false, "any"⟩, ⟨"name", false, "\x7b\n    full: any;\n  \x7d"⟩] := by
  obtain ⟨chunks, hchunks⟩ : ∃ chunks, itemChunks [("User", personSchema)] = .ok chunks := ⟨_, rfl⟩
  have hreads := allWritable_person.reads (fun _ h => h) hchunks
  obtain ⟨file, hfile, -, houtline⟩ := exists_file_plain hreads
  refine ⟨file, ?_, ?_, ?_⟩
  · rw [generateTypes_eq false (List.cons_ne_nil _ _) (by simp), hchunks]
    simp only [Except.mapError, Except.bind, hfile]
  · rw [SourceFile.declaredNames_of_outline houtline]
    obtain rfl := Except.ok.inj hchunks
    decide
  · rw [members?_eq_interfaceMembers?, houtline]
    obtain rfl := Except.ok.inj hchunks
    rfl

theorem tokens_nameBody : tokens "interface Body \x7b\n    full: any;\n  \x7d" =
    [⟨.interfaceWord, "interface", 1, 0⟩, ⟨.identifier, "Body", 1, 10⟩, ⟨.leftBrace, "\x7b", 1, 15⟩,
      ⟨.identifier, "full", 2, 21⟩, ⟨.colon, ":", 2, 25⟩, ⟨.identifier, "any", 2, 27⟩,
      ⟨.semicolon, ";", 2, 30⟩, ⟨.rightBrace, "\x7d", 3, 34⟩] := by
  decide

/-- The object of the name holds one member. -/
theorem objectMembers_name :
    objectMembers "\x7b\n    full: any;\n  \x7d" = [⟨"full", false, "any"⟩] := by
  have hfile : SourceFile.ofText "interface Body \x7b\n    full: any;\n  \x7d" =
      .ok ⟨"interface Body \x7b\n    full: any;\n  \x7d", [],
        [.interface "Body" false [⟨"full", false, 27, 30⟩]]⟩ := by
    unfold SourceFile.ofText parse
    rw [tokens_nameBody]
    rfl
  have houtline : SourceFile.outline ⟨"interface Body \x7b\n    full: any;\n  \x7d", [],
      [.interface "Body" false [⟨"full", false, 27, 30⟩]]⟩ =
        [.interface "Body" false [⟨"full", false, "any"⟩]] := by
    rfl
  have htext : "interface Body " ++ "\x7b\n    full: any;\n  \x7d" =
      "interface Body \x7b\n    full: any;\n  \x7d" := by decide
  unfold objectMembers
  rw [htext, hfile, Except.map, houtline]

/-- The full name of a person gets its type. -/
theorem generate_virtuals_person :
    ∃ file patched members members',
      generateTypes [("User", personSchema)] ⟨false, []⟩ = .ok file ∧
        generate [("User", personSchema)] ⟨false, []⟩ true = .ok patched ∧
        file.members? false "UserDocument" = some members ∧
        patched.members? false "UserDocument" = some members' ∧
        typesAt members ["fullName"] = ["any"] ∧ typesAt members' ["fullName"] = ["string"] := by
  obtain ⟨file, hfile, hdistinct, hmembers⟩ := exists_file_person
  obtain ⟨patched, hpatched, hvirtuals⟩ :=
    generate_virtuals hfile (show (interfaceNames [("User", personSchema)]).Nodup by decide)
  obtain ⟨members', hmembers', htypes⟩ :=
    hvirtuals "User" personSchema _ _ List.mem_cons_self .document hmembers
  have hpath : memberPath "fullName" = ["fullName"] :=
    memberPath_eq_singleton (by decide) (IsKey.isPlainName (by decide))
  have harrives := (htypes "fullName" "string" (by decide)).1 hpath
  rw [hpath] at harrives
  exact ⟨file, patched, _, members', hfile, hpatched, hmembers, hmembers', by decide, harrives⟩

/-- The full name inside the name of a person keeps its placeholder, although its type is
declared. -/
theorem dotted_virtual_keeps_placeholder :
    (Schema.build (.dict [("first", .type .str)]) .null
          [("_id", .bool false), ("version_key", .bool false)]).map (fun s =>
        (s.declareVirtual "fullName" [] [] (some "string")).declareVirtual "name.full" [] []
          (some "string")) = .ok personSchema ∧
      knownFor? personSchema.knownVirtuals "name.full" = some "string" ∧
      memberPath "name.full" = ["name", "full"] ∧
      ∃ file patched members members',
        generateTypes [("User", personSchema)] ⟨false, []⟩ = .ok file ∧
          generate [("User", personSchema)] ⟨false, []⟩ true = .ok patched ∧
          (file.declaredNames false).Nodup ∧
          file.members? false "UserDocument" = some members ∧
          patched.members? false "UserDocument" = some members' ∧
          typesAt members ["name", "full"] = ["any"] ∧
          typesAt members' ["name", "full"] = ["any"] := by
  obtain ⟨file, hfile, hdistinct, hmembers⟩ := exists_file_person
  obtain ⟨patched, hpatched, hmembers'⟩ :=
    exists_patched hfile (show (interfaceNames [("User", personSchema)]).Nodup by decide)
  have hretyped : patched.members? false "UserDocument" =
      (file.members? false "UserDocument").map (List.map (·.retype personSchema.knownVirtuals)) :=
    hmembers' "User" personSchema _ List.mem_cons_self .document
  rw [hmembers] at hretyped
  have htypes : typesAt [⟨"first", true, "string"⟩, ⟨"fullName", false, "any"⟩,
      ⟨"name", false, "\x7b\n    full: any;\n  \x7d"⟩] ["name", "full"] = ["any"] := by
    simp [typesAt, objectMembers_name]
  refine ⟨rfl, by decide, by decide, file, patched, _, _, hfile, hpatched, hdistinct, hmembers,
    hretyped, htypes, ?_⟩
  rw [typesAt_retype_of_none _ (by decide), htypes]

end SchemaTypings
