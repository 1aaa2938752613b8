import SchemaTypings.Model.Types
import SchemaTypings.Proofs.Schemas.Construction

/-!
# Implicit fields and declared ones

A schema gets implicit fields as its options ask: the identifier, the timestamps, the version
counter and the identifier's virtual (`implicitFields`). They come behind the declared fields, each
under a key that is not declared, and the declared fields keep their values and their order. The
identifier's virtual alone is set and not put where nothing is: it takes the place of a declared
field of the name `id`. `Schema.build_keeps_declared_iff` says that nothing else goes wrong.
-/

namespace SchemaTypings

/-! ## Adding what is not there -/

namespace Entries

variable {α : Type}

theorem isSome_lookup_iff {entries : List (String × α)} {key : String} :
    (entries.lookup key).isSome = true ↔ key ∈ keys entries := by
  constructor
  · intro h
    obtain ⟨v, hv⟩ := Option.isSome_iff_exists.mp h
    exact mem_keys_of_lookup hv
  · intro h
    induction entries with
    | nil => exact absurd h List.not_mem_nil
    | cons e rest ih =>
      rw [List.lookup_cons]
      split
      · rfl
      · next hne => exact ih ((List.mem_cons.mp h).resolve_left fun heq => by simp [heq] at hne)

/-- Adding entries one after the other, where there are none of their keys, adds the missing ones
behind the others. -/
theorem foldl_putIfAbsent {new : List (String × α)} (hnew : (keys new).Nodup)
    (entries : List (String × α)) :
    new.foldl (fun es e => putIfAbsent es e.1 e.2) entries =
      entries ++ new.filter (·.1 ∉ keys entries) := by
  induction new generalizing entries with
  | nil => simp
  | cons e rest ih =>
    obtain ⟨hfresh, hrest⟩ := List.nodup_cons.mp hnew
    rw [List.foldl_cons]
    by_cases hthere : e.1 ∈ keys entries
    · have hsame : putIfAbsent entries e.1 e.2 = entries :=
        if_pos (isSome_lookup_iff.mpr hthere)
      rw [hsame, ih hrest, List.filter_cons_of_neg (by simpa using hthere)]
    · have hput : putIfAbsent entries e.1 e.2 = entries ++ [e] := by
        have hnone : ¬ (entries.lookup e.1).isSome = true := fun h =>
          hthere (isSome_lookup_iff.mp h)
        rw [putIfAbsent, if_neg hnone, put_of_not_mem e.2 hthere]
      -- the entry just added has none of the keys that are still to come
      have hothers : rest.filter (·.1 ∉ keys (entries ++ [e])) =
          rest.filter (·.1 ∉ keys entries) := by
        refine List.filter_congr fun other hother => ?_
        have hne : other.1 ≠ e.1 := fun heq => hfresh (heq ▸ List.mem_map_of_mem hother)
        have hkeys : other.1 ∈ keys (entries ++ [e]) ↔ other.1 ∈ keys entries := by
          simp [keys, hne]
        simp only [hkeys]
      rw [hput, ih hrest, hothers, List.filter_cons_of_pos (by simpa using hthere),
        List.append_assoc, List.singleton_append]

/-- Putting a value changes nothing exactly when the key holds it already. -/
theorem put_eq_self_iff {entries : List (String × α)} {key : String} (h : key ∈ keys entries)
    (v : α) : put entries key v = entries ↔ entries.lookup key = some v := by
  constructor
  · intro heq
    rw [← heq]
    exact lookup_put_self entries key v
  · intro hlookup
    induction entries with
    | nil => exact absurd h List.not_mem_nil
    | cons e rest ih =>
      obtain ⟨k, old⟩ := e
      rw [put]
      by_cases hk : k = key
      · subst hk
        obtain rfl : old = v := by simpa using hlookup
        rw [if_pos rfl]
      · have hb : (key == k) = false := by simpa using Ne.symm hk
        rw [List.lookup_cons, hb] at hlookup
        rw [if_neg hk, ih (mem_keys_of_lookup hlookup) hlookup]

end Entries

/-! ## The implicit fields -/

/-- Whether options ask for the identifier's virtual. -/
def asksForIdVirtual (options : Fields) : Bool :=
  optionIsOn options "id" true && optionIsOn options "_id" true

/-- The implicit fields that are stored: those that options ask for, without the virtual. -/
def storedFields (options : Fields) : Fields :=
  (if optionIsOn options "_id" true then
      [("_id", .dict [("type", .tag .objectId), ("auto", .bool true)])] else []) ++
    (if optionIsOn options "timestamps" false then
      [("createdAt", .dict [("type", .tag .date)]), ("updatedAt", .dict [("type", .tag .date)])]
    else []) ++
    (if optionIsOn options "version_key" true then [("__v", .tag .number)] else [])

/-- The implicit fields that options ask for, in their order. -/
def implicitFields (options : Fields) : Fields :=
  storedFields options ++
    (if asksForIdVirtual options then [("id", .virtual (.empty "id"))] else [])

/-- The stored implicit fields have keys of their own, none of which is that of the virtual. -/
theorem nodup_keys_storedFields (options : Fields) :
    (Entries.keys (storedFields options)).Nodup ∧ "id" ∉ Entries.keys (storedFields options) := by
  unfold storedFields
  cases optionIsOn options "_id" true <;> cases optionIsOn options "timestamps" false <;>
    cases optionIsOn options "version_key" true <;> decide

theorem withImplicitFields_eq (options tree : Fields) :
    withImplicitFields options tree =
      tree ++ (storedFields options).filter (·.1 ∉ Entries.keys tree) := by
  rw [← Entries.foldl_putIfAbsent (nodup_keys_storedFields options).1]
  unfold withImplicitFields storedFields
  cases optionIsOn options "_id" true <;> cases optionIsOn options "timestamps" false <;>
    cases optionIsOn options "version_key" true <;> rfl

/-- The identifier's virtual is put over what stands under its name. -/
theorem Schema.tree_ofTree_eq_put (tree options : Fields) :
    (Schema.ofTree tree options).tree =
      if asksForIdVirtual options = true then
        Entries.put (withImplicitFields options tree) "id" (.virtual (.empty "id"))
      else withImplicitFields options tree := by
  have hsegments : pathSegments "id" = ["id"] := by decide
  unfold Schema.ofTree
  dsimp only
  rw [Tree.setPath, hsegments]
  rfl

/-- The tree of a schema is the one it is made of with the implicit fields that are missing behind
it; the identifier's virtual is put in the place of a field of its name. -/
theorem Schema.tree_ofTree (tree options : Fields) :
    (Schema.ofTree tree options).tree =
      let all := tree ++ (implicitFields options).filter (·.1 ∉ Entries.keys tree)
      if asksForIdVirtual options = true ∧ "id" ∈ Entries.keys tree then
        Entries.put all "id" (.virtual (.empty "id"))
      else all := by
  rw [Schema.tree_ofTree_eq_put, withImplicitFields_eq]
  unfold implicitFields
  by_cases hasks : asksForIdVirtual options = true
  · by_cases hid : "id" ∈ Entries.keys tree
    · simp [hasks, hid]
    · -- nothing has the key of the virtual, and it comes last
      have hnew : "id" ∉ Entries.keys
          (tree ++ (storedFields options).filter (·.1 ∉ Entries.keys tree)) := by
        have hstored := (nodup_keys_storedFields options).2
        simp only [Entries.keys, List.map_append, List.mem_append, not_or] at hid hstored ⊢
        exact ⟨hid, fun hmem => hstored ((List.filter_sublist.map _).subset hmem)⟩
      rw [if_pos hasks, Entries.put_of_not_mem _ hnew]
      simp [hasks, hid]
  · simp [hasks]

/-! ## Declared fields -/

theorem lookup_normalizeFields (fields : Fields) (key : String) :
    (normalizeFields fields).lookup key = (fields.lookup key).map (normalize · false) := by
  induction fields with
  | nil => rfl
  | cons field rest ih =>
    obtain ⟨k, v⟩ := field
    rw [normalizeFields, List.lookup_cons, List.lookup_cons, ih]
    cases key == k <;> rfl

/-- What a key holds among entries it holds with others behind them. -/
theorem Entries.lookup_append_of_mem {entries : Fields} {key : String} (h : key ∈ keys entries)
    (more : Fields) : (entries ++ more).lookup key = entries.lookup key := by
  obtain ⟨v, hv⟩ := Option.isSome_iff_exists.mp (isSome_lookup_iff.mpr h)
  rw [List.lookup_append, hv, Option.some_or]

/-- A declared field holds its value in the tree of the schema, unless the identifier's virtual takes
its place. -/
theorem Schema.lookup_tree_ofTree {tree options : Fields} {key : String}
    (hkey : key ∈ Entries.keys tree) (hid : asksForIdVirtual options = true → key ≠ "id") :
    (Schema.ofTree tree options).tree.lookup key = tree.lookup key := by
  rw [Schema.tree_ofTree]
  dsimp only
  split
  · next h => rw [Entries.lookup_put_of_ne _ _ (hid h.1), Entries.lookup_append_of_mem hkey]
  · exact Entries.lookup_append_of_mem hkey _

/-- The keys of the missing implicit fields come behind those of the tree. -/
theorem Entries.keys_append_filter (tree implicit : Fields) :
    keys (tree ++ implicit.filter (·.1 ∉ keys tree)) =
      keys tree ++ (keys implicit).filter (· ∉ keys tree) := by
  simp only [keys, List.map_append, List.filter_map]
  rfl

/-- Putting the identifier's virtual adds no key to the tree of a schema. -/
theorem Schema.keys_tree_ofTree (tree options : Fields) :
    Entries.keys (Schema.ofTree tree options).tree =
      Entries.keys tree ++
        (Entries.keys (implicitFields options)).filter (· ∉ Entries.keys tree) := by
  rw [Schema.tree_ofTree]
  dsimp only
  split
  · next h =>
    rw [Entries.keys_put, if_pos, Entries.keys_append_filter]
    rw [Entries.keys_append_filter]
    exact List.mem_append_left _ h.2
  · exact Entries.keys_append_filter ..

/-- The tree of a schema is the one it is made of with the missing implicit fields behind it when the
identifier's virtual is not asked for or takes the place of no other value. -/
theorem Schema.tree_ofTree_eq_iff (tree options : Fields) :
    (Schema.ofTree tree options).tree =
        tree ++ (implicitFields options).filter (·.1 ∉ Entries.keys tree) ↔
      (asksForIdVirtual options = true →
        ∀ v, tree.lookup "id" = some v → v = .virtual (.empty "id")) := by
  rw [Schema.tree_ofTree]
  dsimp only
  by_cases hid : asksForIdVirtual options = true ∧ "id" ∈ Entries.keys tree
  · -- the virtual is put over what is declared: nothing changes when that is the same virtual
    have hall : "id" ∈ Entries.keys
        (tree ++ (implicitFields options).filter (·.1 ∉ Entries.keys tree)) := by
      rw [Entries.keys_append_filter]
      exact List.mem_append_left _ hid.2
    obtain ⟨v, hv⟩ := Option.isSome_iff_exists.mp (Entries.isSome_lookup_iff.mpr hid.2)
    rw [if_pos hid, Entries.put_eq_self_iff hall, Entries.lookup_append_of_mem hid.2, hv]
    simp [hid.1]
  · rw [if_neg hid]
    refine iff_of_true rfl fun hasks v hv => ?_
    exact absurd ⟨hasks, Entries.mem_keys_of_lookup hv⟩ hid

/-- A schema is built of every definition and all options that there are. -/
theorem Schema.build_of_allowed {definition options : Value} {named fields given : Fields}
    (hdefinition : definitionOf definition = .ok fields) (hoptions : optionsOf options = .ok given)
    (hallowed : ∀ name ∈ Entries.keys (Entries.putAll given named), name ∈ schemaOptions) :
    Schema.build definition options named =
      .ok (Schema.ofTree (normalizeFields fields) (Entries.putAll given named)) := by
  have hknown : (Entries.keys (Entries.putAll given named)).filter (!schemaOptions.contains ·) = [] :=
    List.filter_eq_nil_iff.mpr fun name hname => by simp [hallowed name hname]
  simp only [Schema.build, hoptions, hdefinition, hknown, bind, Except.bind, pure, Except.pure]

/-- A schema is built of every definition and all options that there are. The keys of the definition
come first in its tree, in their order, and the implicit fields that the options ask for are added
behind them under those of their keys that are not declared. Every declared field keeps its value but
one of the name `id`, and so the tree is the declared fields with the missing implicit ones behind
them exactly when the identifier's virtual is not asked for, or takes the place of no other value. -/
theorem Schema.build_keeps_declared_iff {definition options : Value} {named fields given : Fields}
    (hdefinition : definitionOf definition = .ok fields) (hoptions : optionsOf options = .ok given)
    (hallowed : ∀ name ∈ Entries.keys (Entries.putAll given named), name ∈ schemaOptions) :
    ∃ s, Schema.build definition options named = .ok s ∧
      s.options = Entries.putAll given named ∧
      Entries.keys s.tree = Entries.keys fields ++
        (Entries.keys (implicitFields s.options)).filter (· ∉ Entries.keys fields) ∧
      (∀ key ∈ Entries.keys fields, key ≠ "id" →
        s.tree.lookup key = (fields.lookup key).map (normalize · false)) ∧
      (s.tree = normalizeFields fields ++
          (implicitFields s.options).filter (·.1 ∉ Entries.keys fields) ↔
        (asksForIdVirtual s.options = true →
          ∀ v, fields.lookup "id" = some v → normalize v false = .virtual (.empty "id"))) := by
  have hkeys := keys_normalizeFields fields
  refine ⟨_, Schema.build_of_allowed hdefinition hoptions hallowed, rfl, ?_, ?_, ?_⟩
  · exact hkeys ▸ Schema.keys_tree_ofTree ..
  · intro key hkey hne
    rw [Schema.lookup_tree_ofTree (hkeys ▸ hkey) fun _ => hne, lookup_normalizeFields]
  · rw [← hkeys]
    refine (Schema.tree_ofTree_eq_iff ..).trans (imp_congr_right fun _ => ?_)
    simp [lookup_normalizeFields]

/-- An identifier and a time of creation that are declared stay as they are, with all that is
implicit asked for. -/
theorem keeps_declared_identifier :
    ∃ s, Schema.build (.dict [("_id", .type .str), ("name", .type .str), ("createdAt", .type .int)])
        .null [("timestamps", .bool true)] = .ok s ∧
      s.tree = [("_id", .tag .string), ("name", .tag .string), ("createdAt", .tag .number),
        ("updatedAt", .dict [("type", .tag .date)]), ("__v", .tag .number),
        ("id", .virtual (.empty "id"))] := by
  obtain ⟨s, hs, hoptions, -, -, hkept⟩ := @Schema.build_keeps_declared_iff
    (.dict [("_id", .type .str), ("name", .type .str), ("createdAt", .type .int)])
    .null [("timestamps", .bool true)] _ _ rfl rfl (by decide)
  -- nothing is declared under the name of the virtual
  have htree := hkept.mpr (by rintro - v ⟨⟩)
  refine ⟨s, hs, htree.trans ?_⟩
  rw [hoptions]
  rfl

/-- A declared field of the name `id` is replaced by the identifier's virtual: its type is lost, and
no property is declared for it. -/
theorem declared_id_replaced_by_virtual :
    ∃ s, Schema.build (.dict [("id", .type .str)]) .null [] = .ok s ∧
      normalize (.type .str) false = .tag .string ∧
      s.tree = [("id", .virtual (.empty "id")),
        ("_id", .dict [("type", .tag .objectId), ("auto", .bool true)]), ("__v", .tag .number)] ∧
      s.declare ⟨.lean, "", false, "", "", false⟩ = .ok "  _id: mongoose.Types.ObjectId;\n" := by
  refine ⟨_, rfl, rfl, rfl, ?_⟩
  have hline : String.join [] ++ "" ++ "" ++ renderMembers .lean 0
      [⟨"_id", false, false, .named "mongoose.Types.ObjectId"⟩] ++ "" =
        "  _id: mongoose.Types.ObjectId;\n" := by
    decide
  exact congrArg Except.ok hline

end SchemaTypings
