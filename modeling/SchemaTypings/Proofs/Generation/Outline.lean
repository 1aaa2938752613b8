import SchemaTypings.Proofs.Generation.Writable

/-!
# What a generated file says

The statements of a generated file are the declarations of its models, one model after the other
(`generateTypes_outline`). `Schema.outlines` lists those of one model: first the plain data, with
what is hoisted out of the schema in front and the aliases of the model in between, then the
documents. Options that cannot be read are the only reason why nothing is generated; those that are
on and hold no fields cannot (`not_generateTypes_of_allWritable`).
-/

namespace SchemaTypings

open Declaration

/-! ## The statements of a model -/

/-- An exported interface with the members that were written. -/
def Interface.outline (shape : Shape) (i : Interface) : Outline :=
  .interface i.name true (i.members.map (·.outline shape 0))

/-- An exported alias of a collection of functions, with the placeholder of each. -/
def Schema.collectionOutline (s : Schema) (model suffix : String) (role : Role) : Outline :=
  .alias (model ++ suffix) true (some ((declaredNames (Entries.keys (s.functions role))).map
    fun name => ⟨name, false, boundSignature defaultSignature role model⟩))

/-- The statements that declare a model. -/
def Schema.outlines (s : Schema) (model : String) (hoisted : List Hoisted) (included : Bool) :
    List Outline :=
  hoisted.map (fun h => (h.interface .lean).outline .lean) ++
  [.alias (model ++ "Object") true none] ++
  (if s.query.isEmpty then []
    else
      [s.collectionOutline model "Queries" .query,
        .module "mongoose" [.interface "Query" false []]]) ++
  [s.collectionOutline model "Methods" .methods, s.collectionOutline model "Statics" .statics,
    .interface (model ++ "Model") true [], .alias (model ++ "Schema") true none,
    (s.leanInterface model included).outline .lean] ++
  hoisted.map (fun h => (h.interface .document).outline .document) ++
  [(s.documentInterface model included).outline .document]

/-- The statements that declare a model, when its options can be read. -/
def Schema.statements (s : Schema) (model : String) : Except SchemaError (List Outline) := do
  let included ← includesVirtuals s.options
  let hoisted ← s.hoisted model
  return s.outlines model hoisted included

/-- The statements that declare some models, one model after the other. -/
def modelStatements : List (String × Schema) → Except SchemaError (List Outline)
  | [] => .ok []
  | (model, s) :: rest => do
    let first ← s.statements model
    let others ← modelStatements rest
    return first ++ others

/-- The names of the functions of a schema are none with a line feed at the end. -/
def Schema.HasPlainFunctions (s : Schema) : Prop :=
  ∀ role, ∀ name ∈ Entries.keys (s.functions role), IsPlainName name

theorem mem_of_mem_declaredNames {names : List String} {name : String}
    (h : name ∈ declaredNames names) : name ∈ names := by
  unfold declaredNames at h
  exact (List.mem_filter.mp h).1

/-- Plain names of functions are read back as they are. -/
theorem Schema.outlines_collection {s : Schema} (h : s.HasPlainFunctions) (docs model suffix : String)
    (role : Role) :
    (Item.collection docs model suffix (Entries.keys (s.functions role)) role).outlines false =
      [s.collectionOutline model suffix role] := by
  have hnames : placeholderOutlines (Entries.keys (s.functions role)) role model =
      (declaredNames (Entries.keys (s.functions role))).map fun name =>
        ⟨name, false, boundSignature defaultSignature role model⟩ :=
    List.map_congr_left fun name hname => by
      rw [keyName_eq (h role name (mem_of_mem_declaredNames hname))]
  simp [Item.collection, Item.outlines, Schema.collectionOutline, hnames]

/-- The declarations of a model say its statements. -/
theorem Schema.flatMap_outlines {s : Schema} (h : s.HasPlainFunctions) (model : String)
    (hoisted : List Hoisted) (included : Bool) :
    (s.leanItems model hoisted included ++ s.documentItems model hoisted included).flatMap
        (·.outlines false) = s.outlines model hoisted included := by
  have hinterfaces : ∀ shape, (hoisted.map fun h => Item.interface shape (h.interface shape)).flatMap
      (·.outlines false) = hoisted.map fun h => (h.interface shape).outline shape := by
    intro shape
    rw [List.flatMap_map, List.map_eq_flatMap]
    rfl
  have hcollection := Schema.outlines_collection h
  have hmodel : (s.modelItems model).flatMap (·.outlines false) =
      [.alias (model ++ "Object") true none] ++
      (if s.query.isEmpty then []
        else
          [s.collectionOutline model "Queries" .query,
            .module "mongoose" [.interface "Query" false []]]) ++
      [s.collectionOutline model "Methods" .methods, s.collectionOutline model "Statics" .statics,
        .interface (model ++ "Model") true [], .alias (model ++ "Schema") true none] := by
    unfold Schema.modelItems
    dsimp only
    split
    · simp only [List.flatMap_cons, List.flatMap_append, hcollection]
      rfl
    · simp only [List.flatMap_cons, List.flatMap_append, hcollection]
      rfl
  have hinterface : ∀ shape i, (Item.interface shape i).outlines false = [i.outline shape] :=
    fun _ _ => rfl
  unfold Schema.leanItems Schema.documentItems Schema.outlines
  simp only [List.flatMap_append, List.flatMap_cons, List.flatMap_nil, hinterfaces, hinterface,
    hmodel, List.append_assoc, List.cons_append, List.nil_append]

/-! ## The statements of a file -/

/-- The declarations of a file say the statements of its models. -/
theorem modelStatements_eq {schemas : List (String × Schema)}
    (h : ∀ entry ∈ schemas, entry.2.HasPlainFunctions) :
    modelStatements schemas =
      (itemChunks schemas).map fun chunks => chunks.flatten.flatMap (·.outlines false) := by
  induction schemas with
  | nil => rfl
  | cons entry rest ih =>
    obtain ⟨model, s⟩ := entry
    have hs : s.HasPlainFunctions := h _ List.mem_cons_self
    have hrest := ih fun entry hentry => h entry (List.mem_cons_of_mem _ hentry)
    rw [modelStatements, itemChunks, hrest, Schema.statements]
    cases includesVirtuals s.options with
    | error e => rfl
    | ok included =>
      cases s.hoisted model with
      | error e => rfl
      | ok hoisted =>
        cases itemChunks rest with
        | error e => rfl
        | ok others =>
          have hmodel := Schema.flatMap_outlines hs model hoisted included
          rw [List.flatMap_append] at hmodel
          simp [bind, Except.bind, pure, Except.pure, Except.map, ← hmodel]

/-- The file that is generated for models says their statements, and nothing else: in the order of
the models, each declared as `Schema.outlines` lists. There is a file when all options are readable,
and otherwise none. -/
theorem generateTypes_outline {schemas : List (String × Schema)} (hne : schemas ≠ [])
    (hwritable : AllWritable IsQuotable schemas)
    (hfunctions : ∀ entry ∈ schemas, entry.2.HasPlainFunctions)
    (hreadable : ∀ entry ∈ schemas, entry.2.IsReadable) :
    ∃ file statements, generateTypes schemas ⟨false, []⟩ = .ok file ∧
      modelStatements schemas = .ok statements ∧ file.outline = statements := by
  obtain ⟨chunks, hchunks⟩ := (exists_itemChunks_iff hwritable).mpr hreadable
  have hreads := hwritable.reads (fun _ h => h) hchunks
  obtain ⟨file, hfile, -, houtline⟩ := exists_file_plain hreads
  have hnames := hwritable.ne_empty
  refine ⟨file, _, ?_, ?_, houtline⟩
  · rw [generateTypes_eq false hne hnames, hchunks]
    simp only [Except.mapError, Except.bind, hfile]
  · rw [modelStatements_eq hfunctions, hchunks]
    rfl

/-- The file of tickets is read back. -/
theorem generateTypes_outline_ticket :
    ∃ file statements, generateTypes [("Ticket", ticketSchema)] ⟨false, []⟩ = .ok file ∧
      modelStatements [("Ticket", ticketSchema)] = .ok statements ∧ file.outline = statements := by
  have hfunctions : ticketSchema.HasPlainFunctions := by
    rintro role name hname
    cases role with
    | methods =>
      obtain rfl : name = "close" := List.mem_singleton.mp hname
      exact IsKey.isPlainName (by decide)
    | query =>
      obtain rfl : name = "open" := List.mem_singleton.mp hname
      exact IsKey.isPlainName (by decide)
    | statics => exact nomatch hname
  refine generateTypes_outline (List.cons_ne_nil _ _)
    (allWritable_ticket.mono fun _ h => h.isQuotable) ?_ ?_
  · exact List.forall_mem_singleton.mpr hfunctions
  · exact List.forall_mem_singleton.mpr isReadable_ticketSchema

/-! ## Options that cannot be read -/

/-- A schema of nothing whose option `to_object` is on and holds no fields. -/
def switchedSchema : Schema :=
  { tree := []
    options := [("_id", .bool false), ("version_key", .bool false), ("to_object", .bool true)]
    methods := []
    statics := []
    query := []
    virtuals := []
    children := [] }

/-- Schemas can be written whose options cannot be read, and then nothing is generated. -/
theorem not_generateTypes_of_allWritable :
    ¬ ∀ schemas : List (String × Schema), schemas ≠ [] → AllWritable IsQuotable schemas →
      (∀ entry ∈ schemas, entry.2.HasPlainFunctions) →
      ∃ file, generateTypes schemas ⟨false, []⟩ = .ok file := by
  intro h
  have hwritable : switchedSchema.IsWritable IsQuotable "User" := by
    refine ⟨Schema.every_iff.mpr ⟨⟨⟨List.nodup_nil, (fun _ h => nomatch h), fun _ h => nomatch h⟩,
      trivial⟩, trivial⟩, ?_⟩
    rintro value (⟨hcompiles, hrenders⟩ | ⟨htype, -⟩)
    · obtain ⟨rfl, rfl⟩ := hcompiles.eq_self rfl
      cases hrenders with
      | own hmem | nested hmem => exact nomatch hmem
    · exact nomatch htype
  have hfunctions : switchedSchema.HasPlainFunctions := by
    rintro role name hname
    cases role <;> exact nomatch hname
  obtain ⟨file, hfile⟩ := h [("User", switchedSchema)] (List.cons_ne_nil _ _)
    (List.forall_mem_singleton.mpr ⟨by decide, hwritable⟩)
    (List.forall_mem_singleton.mpr hfunctions)
  exact nomatch hfile

end SchemaTypings
