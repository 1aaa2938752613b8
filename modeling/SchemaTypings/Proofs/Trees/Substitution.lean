import SchemaTypings.Proofs.Trees.Every
import SchemaTypings.Proofs.Trees.Binding

/-!
# Binding is substitution

`Tree.substitute` replaces the values at given segments of a tree and leaves everything else as it
stands, the order of the keys included. A value set at segments that are there already, apart from
those replaced so far, is one more replacement (`setSegments_substituteFields`). What is bound in
the flat form of a tree is set in the tree, so that binding schemas embedded apart from each other
substitutes their sub-documents (`unflatten_foldl_bind`); what is read of the flat form on the way,
the default and the requirement at a path, is what the tree holds there (`lookup_flatten`).
-/

namespace SchemaTypings

namespace Tree

mutual
/-- A value, found at the segments `path`, with what stands at some segments replaced. -/
def substituteValue (replacements : List (List String × Value)) (path : List String) :
    Value → Value
  | .dict fields =>
    (replacements.lookup path).getD (.dict (substituteFields replacements path fields))
  | v => (replacements.lookup path).getD v
  termination_by structural v => v

/-- Fields, found at the segments `path`, with what stands at some segments replaced. -/
def substituteFields (replacements : List (List String × Value)) (path : List String) :
    Fields → Fields
  | [] => []
  | (key, v) :: rest =>
    (key, substituteValue replacements (path ++ [key]) v) :: substituteFields replacements path rest
  termination_by structural fields => fields
end

/-- The tree with what stands at some segments replaced. -/
def substitute (replacements : List (List String × Value)) (tree : Fields) : Fields :=
  substituteFields replacements [] tree

variable {rs rs' : List (List String × Value)} {path : List String}

/-- Where a replacement stands, it is the value. -/
theorem substituteValue_of_lookup {w : Value} (h : rs.lookup path = some w) (v : Value) :
    substituteValue rs path v = w := by
  cases v with
  | dict fields => rw [substituteValue, h, Option.getD_some]
  | _ => simp only [substituteValue, h, Option.getD_some]

/-- A dictionary that is not replaced has its fields replaced. -/
theorem substituteValue_dict (h : rs.lookup path = none) (fields : Fields) :
    substituteValue rs path (.dict fields) = .dict (substituteFields rs path fields) := by
  rw [substituteValue, h, Option.getD_none]

mutual
/-- Only the replacements at a value and in it matter to it. -/
theorem substituteValue_congr (path : List String) :
    ∀ v : Value, (∀ more, rs.lookup (path ++ more) = rs'.lookup (path ++ more)) →
      substituteValue rs path v = substituteValue rs' path v
  | .dict fields, h => by
    have hfields := substituteFields_congr path fields fun key _ more => h (key :: more)
    have hhere := h []
    rw [List.append_nil] at hhere
    rw [substituteValue, substituteValue, hfields, hhere]
  | .null, h | .bool _, h | .int _, h | .real _, h | .text _, h | .list _, h | .tuple _, h
  | .type _, h | .tag _, h | .schema _, h | .model _ _, h | .virtual _, h | .subDocument _, h => by
    have hhere := h []
    rw [List.append_nil] at hhere
    simp only [substituteValue, hhere]
  termination_by structural v => v

/-- Only the replacements under their keys matter to fields. -/
theorem substituteFields_congr (path : List String) :
    ∀ fields : List (String × Value), (∀ key ∈ Entries.keys fields, ∀ more,
        rs.lookup (path ++ key :: more) = rs'.lookup (path ++ key :: more)) →
      substituteFields rs path fields = substituteFields rs' path fields
  | [], _ => rfl
  | (key, v) :: rest, h => by
    have hv := substituteValue_congr (path ++ [key]) v fun more => by
      simpa using h key (List.mem_cons_self ..) more
    have hrest := substituteFields_congr path rest fun k hk =>
      h k (List.mem_cons_of_mem key hk)
    rw [substituteFields, substituteFields, hv, hrest]
  termination_by structural fields => fields
end

/-- Below a key that is not replaced there are the fields that were there, with theirs replaced. -/
theorem below_substituteFields {key : String} (h : rs.lookup (path ++ [key]) = none)
    (fields : Fields) :
    below (substituteFields rs path fields) key =
      substituteFields rs (path ++ [key]) (below fields key) := by
  induction fields with
  | nil => rfl
  | cons field rest ih =>
    obtain ⟨k, v⟩ := field
    rw [substituteFields]
    by_cases hk : key = k
    · subst hk
      cases v with
      | dict fields => simp [below, substituteValue, h]
      | _ => simp [below, substituteValue, substituteFields, h]
    · have hb : (key == k) = false := by simpa using hk
      simpa [below, List.lookup_cons, hb] using ih

/-- Putting a value under one of the keys replaces what is there, and nothing else. -/
theorem put_substituteFields {fields : Fields} (hnodup : (Entries.keys fields).Nodup) {key : String}
    {old w : Value} (hold : fields.lookup key = some old)
    (hkey : substituteValue rs' (path ++ [key]) old = w)
    (hothers : ∀ k, k ≠ key → ∀ more,
      rs.lookup (path ++ k :: more) = rs'.lookup (path ++ k :: more)) :
    Entries.put (substituteFields rs path fields) key w = substituteFields rs' path fields := by
  induction fields with
  | nil => simp at hold
  | cons field rest ih =>
    obtain ⟨k, v⟩ := field
    obtain ⟨hnew, hrest⟩ := List.nodup_cons.mp hnodup
    rw [substituteFields, substituteFields, Entries.put]
    by_cases hk : k = key
    · subst hk
      obtain rfl : v = old := by simpa using hold
      have hsame := substituteFields_congr path rest fun other hother =>
        hothers other fun heq => hnew (heq ▸ hother)
      rw [if_pos rfl, hkey, hsame]
    · have hv := substituteValue_congr (path ++ [k]) v fun more => by
        simpa using hothers k hk more
      have hb : (key == k) = false := by simpa using Ne.symm hk
      rw [List.lookup_cons, hb] at hold
      rw [if_neg hk, hv, ih hrest hold]

/-- A value set at segments that are there, apart from what is replaced, is one more replacement. -/
theorem setSegments_substituteFields {fields : Fields} {segments : List String}
    (hkeys : Tree.Every (fun fields => (Entries.keys fields).Nodup) (fun _ => True) fields)
    (hne : segments ≠ []) (hthere : (getSegments? fields segments).isSome = true)
    (hfree : ∀ more w, rs.lookup (path ++ more) = some w → Apart more segments) (v : Value) :
    setSegments (substituteFields rs path fields) segments v =
      substituteFields (rs ++ [(path ++ segments, v)]) path fields := by
  induction segments generalizing path fields with
  | nil => exact absurd rfl hne
  | cons part rest ih =>
    -- what stands at the first segment is not replaced as a whole
    have hnone : rs.lookup (path ++ [part]) = none := by
      cases hw : rs.lookup (path ++ [part]) with
      | none => rfl
      | some w => exact absurd (List.prefix_append [part] rest) (hfree [part] w hw).1
    have hothers : ∀ k, k ≠ part → ∀ more, rs.lookup (path ++ k :: more) =
        (rs ++ [(path ++ part :: rest, v)]).lookup (path ++ k :: more) := by
      intro k hk more
      have hother : (path ++ k :: more == path ++ part :: rest) = false := by simp [hk]
      rw [List.lookup_append, List.lookup_cons, hother, List.lookup_nil, Option.or_none]
    cases rest with
    | nil =>
      obtain ⟨old, hold⟩ := Option.isSome_iff_exists.mp hthere
      refine put_substituteFields hkeys.1 hold (substituteValue_of_lookup ?_ old) hothers
      rw [List.lookup_append, hnone, Option.none_or]
      simp
    | cons next rest =>
      obtain ⟨inner, hinner⟩ : ∃ inner, fields.lookup part = some (.dict inner) := by
        simp only [getSegments?] at hthere
        split at hthere
        · next inner hinner => exact ⟨inner, hinner⟩
        · simp at hthere
      have hbelow : below fields part = inner := by simp [below, hinner]
      rw [getSegments?_cons _ _ (List.cons_ne_nil _ _), hbelow] at hthere
      -- below the first segment the rest is apart from what is replaced there
      have hset : setSegments (substituteFields rs (path ++ [part]) inner) (next :: rest) v =
          substituteFields (rs ++ [(path ++ [part] ++ next :: rest, v)]) (path ++ [part]) inner := by
        refine ih (hkeys.2.of_lookup hinner) (List.cons_ne_nil _ _) hthere fun more w hw => ?_
        obtain ⟨_, _, _, _, hl, hr, hcases⟩ :=
          (hfree (part :: more) w (by simpa using hw)).cases
        obtain ⟨rfl, rfl⟩ := List.cons.inj hl
        obtain ⟨rfl, rfl⟩ := List.cons.inj hr
        exact (hcases.resolve_left fun hne => hne rfl).2
      rw [List.append_assoc, List.singleton_append] at hset
      rw [setSegments_cons _ _ (List.cons_ne_nil _ _), below_substituteFields hnone, hbelow, hset]
      refine put_substituteFields hkeys.1 hinner (substituteValue_dict ?_ inner) hothers
      rw [List.lookup_append, hnone, Option.none_or]
      simp

mutual
/-- Without replacements a value is what it was. -/
theorem substituteValue_nil (path : List String) : ∀ v : Value, substituteValue [] path v = v
  | .dict fields => by
    rw [substituteValue_dict rfl, substituteFields_nil path fields]
  | .null | .bool _ | .int _ | .real _ | .text _ | .list _ | .tuple _ | .type _ | .tag _
  | .schema _ | .model _ _ | .virtual _ | .subDocument _ => rfl
  termination_by structural v => v

theorem substituteFields_nil (path : List String) :
    ∀ fields : List (String × Value), substituteFields [] path fields = fields
  | [] => rfl
  | (key, v) :: rest => by
    rw [substituteFields, substituteValue_nil (path ++ [key]) v, substituteFields_nil path rest]
  termination_by structural fields => fields
end

/-! ## Reading flat fields -/

/-- What a path holds among flat fields is what its segments hold. -/
theorem lookup_segmented (flat : Fields) (path : String) :
    (segmented flat).lookup (pathSegments path) = flat.lookup path := by
  induction flat with
  | nil => rfl
  | cons field rest ih =>
    obtain ⟨key, v⟩ := field
    have hsame : (pathSegments path == pathSegments key) = (path == key) := by
      rw [Bool.eq_iff_iff, beq_iff_eq, beq_iff_eq]
      exact ⟨pathSegments_injective, congrArg pathSegments⟩
    rw [segmented, List.map_cons, Prod.map_apply, List.lookup_cons, List.lookup_cons, hsame]
    cases path == key with
    | true => rfl
    | false => exact ih

/-- Under another key there is none of these values. -/
theorem lookup_map_cons (key part : String) (more : List String)
    (values : List (List String × Value)) :
    (values.map (Prod.map (key :: ·) id)).lookup (part :: more) =
      if part = key then values.lookup more else none := by
  induction values with
  | nil => simp
  | cons e rest ih =>
    obtain ⟨segments, v⟩ := e
    have hsame : (part :: more == key :: segments) = (part == key && more == segments) := rfl
    rw [List.map_cons, Prod.map_apply, List.lookup_cons, List.lookup_cons, ih, hsame]
    by_cases hpart : part = key
    · simp [hpart]
    · have hb : (part == key) = false := by simpa using hpart
      simp [hb, hpart]

/-- The value at some segments in a value. -/
def valueAt? (v : Value) : List String → Option Value
  | [] => some v
  | part :: more =>
    match v with
    | .dict fields => getSegments? fields (part :: more)
    | _ => none

theorem getSegments?_eq_bind (tree : Fields) (part : String) (more : List String) :
    getSegments? tree (part :: more) = (tree.lookup part).bind (valueAt? · more) := by
  cases more with
  | nil => cases h : tree.lookup part <;> simp [getSegments?, valueAt?, h]
  | cons next more =>
    rw [getSegments?]
    · cases tree.lookup part with
      | none => rfl
      | some v => cases v <;> rfl
    · simp

/-- What more segments lead to from where some segments lead. -/
theorem getSegments?_append (tree : Fields) {path : List String} (h : path ≠ [])
    (more : List String) :
    getSegments? tree (path ++ more) = (getSegments? tree path).bind (valueAt? · more) := by
  induction path generalizing tree with
  | nil => exact absurd rfl h
  | cons part rest ih =>
    by_cases hrest : rest = []
    · subst hrest
      exact getSegments?_eq_bind tree part more
    · have hne : rest ++ more ≠ [] := by simp [hrest]
      rw [List.cons_append, getSegments?_cons _ _ hne, getSegments?_cons _ _ hrest, ih _ hrest]

/-- A value as a leaf: none when it is a dictionary with something in it. -/
def leaf? (v : Value) : Option Value :=
  if v.isFilledDict then none else some v

/-- No leaf of fields stands at no segments. -/
theorem lookup_leaves_nil (fields : Fields) : (leaves fields).lookup [] = none := by
  cases h : (leaves fields).lookup [] with
  | none => rfl
  | some v =>
    obtain ⟨before, after, heq, -⟩ := List.lookup_eq_some_iff.mp h
    have hmem : ([], v) ∈ leaves fields := by simp [heq]
    exact absurd rfl (ne_nil_of_mem_leaves hmem)

mutual
/-- Among the leaves of a value is what it holds at their segments. -/
theorem lookup_valueLeaves :
    ∀ (v : Value) (segments : List String), v.Every HasPlainKeys (fun _ => True) →
      (valueLeaves v).lookup segments = (valueAt? v segments).bind leaf?
  | .dict (field :: fields), [], _ => lookup_leaves_nil (field :: fields)
  | .dict (field :: fields), part :: more, hv => lookup_leaves (field :: fields) part more hv
  | .dict [], segments, _ | .null, segments, _ | .bool _, segments, _ | .int _, segments, _
  | .real _, segments, _ | .text _, segments, _ | .list _, segments, _ | .tuple _, segments, _
  | .type _, segments, _ | .tag _, segments, _ | .schema _, segments, _ | .model _ _, segments, _
  | .virtual _, segments, _ | .subDocument _, segments, _ => by
    cases segments with
    | nil => rfl
    | cons part more => cases more <;> rfl
  termination_by structural v => v

/-- Among the leaves of fields is what they hold at their segments. -/
theorem lookup_leaves :
    ∀ (fields : List (String × Value)) (part : String) (more : List String), IsPlain fields →
      (leaves fields).lookup (part :: more) = (getSegments? fields (part :: more)).bind leaf?
  | [], part, more, _ => by
    rw [getSegments?_eq_bind]
    rfl
  | (key, v) :: rest, part, more, ⟨⟨hnodup, hdots⟩, hv, hrest⟩ => by
    obtain ⟨hnew, hnodup'⟩ := List.nodup_cons.mp hnodup
    have hplain : IsPlain rest :=
      ⟨⟨hnodup', fun k hk => hdots k (List.mem_cons_of_mem _ hk)⟩, hrest⟩
    rw [leaves, List.lookup_append, lookup_map_cons, lookup_leaves rest part more hplain,
      getSegments?_eq_bind, getSegments?_eq_bind, List.lookup_cons]
    by_cases hpart : part = key
    · subst hpart
      rw [Entries.lookup_of_not_mem hnew, lookup_valueLeaves v more hv]
      simp
    · have hb : (part == key) = false := by simpa using hpart
      simp [hb, hpart]
  termination_by structural fields => fields
end

/-- What a path holds in the flat form of a tree is what the tree holds there, as a leaf. -/
theorem lookup_flatten {tree : Fields} (h : IsPlain tree) (path : String) :
    (flatten tree "").lookup path = (getPath? tree path).bind leaf? := by
  rw [← lookup_segmented, segmented_flatten h.hasPlainPaths, getPath?]
  obtain ⟨part, more, hsegments⟩ := List.exists_cons_of_ne_nil (pathSegments_ne_nil path)
  rw [hsegments, lookup_leaves tree part more h]

/-- What is replaced is nothing to what is read apart from it. -/
theorem lookup_replaced {path other : List String} (h : ¬path <+: other) (v : Value)
    (values : List (List String × Value)) :
    (replaced path v values).lookup other = values.lookup other := by
  have hother : ∀ begun : List String, path <+: begun → (other == begun) = false := by
    intro begun hbegun
    rw [beq_eq_false_iff_ne]
    rintro rfl
    exact h hbegun
  induction values with
  | nil => simp [replaced, List.lookup_cons, hother path List.prefix_rfl]
  | cons e rest ih =>
    rw [replaced]
    split
    · next hbegins =>
      rw [List.lookup_cons, hother path List.prefix_rfl, List.lookup_cons, hother e.1 hbegins]
      exact Entries.lookup_filter_of_key (fun key => decide (¬path <+: key)) (by simpa using h) rest
    · rw [List.lookup_cons, List.lookup_cons, ih]

end Tree

/-! ## Bound trees -/

/-- The sub-document that stands for an embedded schema, by what the tree of the owner holds at its
path: the array that mongoose creates by default is off when the default is nothing, and only a
requirement that is plainly true makes the field required. -/
def ChildSchema.binding (c : ChildSchema) (owner : String) (tree : Fields) : SubDocument :=
  { name := subDocumentName c.path owner
    keys := Entries.keys c.schema.tree
    isArray := c.isArray
    defaultIsUndefined :=
      c.isArray &&
        match Tree.getPath? tree (c.path ++ ".default") with
        | some .null => true
        | _ => false
    required :=
      match Tree.getPath? tree (c.path ++ ".required") with
      | some (.bool true) => true
      | _ => false }

/-- What the tree of the owner holds for an embedded schema once it is bound, and where. -/
def ChildSchema.replacement (owner : String) (tree : Fields) (c : ChildSchema) :
    List String × Value :=
  (pathSegments c.place, c.bound (c.binding owner tree))

/-- The flat form of a tree gives the sub-document that the tree gives. -/
theorem ChildSchema.subDocument_eq_binding {tree flat : Fields} (h : Tree.IsPlain tree)
    (c : ChildSchema) (owner : String)
    (hflat : ∀ key, flat.lookup (c.path ++ "." ++ key) =
      (Tree.flatten tree "").lookup (c.path ++ "." ++ key)) :
    c.subDocument owner flat = c.binding owner tree := by
  have hdefault := (hflat "default").trans (Tree.lookup_flatten h _)
  have hrequired := (hflat "required").trans (Tree.lookup_flatten h _)
  rw [String.append_assoc] at hdefault hrequired
  change flat.lookup (c.path ++ ".default") = _ at hdefault
  change flat.lookup (c.path ++ ".required") = _ at hrequired
  unfold ChildSchema.subDocument ChildSchema.binding
  rw [hdefault, hrequired]
  -- a dictionary with something in it is no leaf, and neither nothing nor true
  congr 1
  · congr 1
    change (match (Tree.getPath? tree (c.path ++ ".default")).bind Tree.leaf? with
      | some .null => true
      | _ => false) = _
    cases Tree.getPath? tree (c.path ++ ".default") with
    | none => rfl
    | some v =>
      cases v with
      | dict fields => cases fields <;> rfl
      | _ => rfl
  · change (match (Tree.getPath? tree (c.path ++ ".required")).bind Tree.leaf? with
      | some (.bool true) => true
      | _ => false) = _
    cases Tree.getPath? tree (c.path ++ ".required") with
    | none => rfl
    | some v =>
      cases v with
      | dict fields => cases fields <;> rfl
      | _ => rfl

/-- What lies below lists of segments that are apart is apart. -/
theorem Tree.Apart.append {path other : List String} (h : Tree.Apart path other)
    (more others : List String) : Tree.Apart (path ++ more) (other ++ others) := by
  have hcut : ∀ {p q x y : List String}, p ++ x <+: q ++ y → p <+: q ∨ q <+: p := fun hbegins =>
    List.prefix_or_prefix_of_prefix ((List.prefix_append _ _).trans hbegins) (List.prefix_append _ _)
  constructor
  · exact fun hbegins => (hcut hbegins).elim h.1 h.2
  · exact fun hbegins => (hcut hbegins).elim h.2 h.1

/-- An embedded schema is bound at its path or right below. -/
theorem ChildSchema.segments_place (c : ChildSchema) :
    ∃ more, pathSegments c.place = pathSegments c.path ++ more := by
  rw [c.pathSegments_place]
  split
  · exact ⟨["of"], rfl⟩
  · exact ⟨[], (List.append_nil _).symm⟩

/-- Binding schemas that are embedded apart from each other in a tree, some of them already,
substitutes their sub-documents. -/
theorem unflatten_foldl_bind_from {tree : Fields} (h : Tree.IsPlain tree) (owner : String)
    (children bound : List ChildSchema) {flat : Fields}
    (hapart : (bound ++ children).Pairwise fun c c' =>
      Tree.Apart (pathSegments c.path) (pathSegments c'.path))
    (hthere : ∀ c ∈ children, (Tree.getPath? tree c.place).isSome = true)
    (horder : Tree.IsOrdered (Tree.segmented flat))
    (hflat : Tree.unflatten flat =
      Tree.substitute (bound.map (ChildSchema.replacement owner tree)) tree)
    (hlookup : ∀ c ∈ children, ∀ key, flat.lookup (c.path ++ "." ++ key) =
      (Tree.flatten tree "").lookup (c.path ++ "." ++ key)) :
    Tree.unflatten (children.foldl (ChildSchema.bind owner) flat) =
      Tree.substitute ((bound ++ children).map (ChildSchema.replacement owner tree)) tree := by
  induction children generalizing bound flat with
  | nil => rwa [List.append_nil]
  | cons c rest ih =>
    have hmiddle : bound ++ c :: rest = (bound ++ [c]) ++ rest := by simp
    obtain ⟨more, hplace⟩ := c.segments_place
    obtain ⟨-, hrest, hbound⟩ := List.pairwise_append.mp hapart
    have hbind := c.bind_eq owner flat
    rw [c.subDocument_eq_binding h owner (hlookup c List.mem_cons_self)] at hbind
    -- no replacement made so far stands above or below the place of this one
    have hfree : ∀ segments w,
        (bound.map (ChildSchema.replacement owner tree)).lookup ([] ++ segments) = some w →
        Tree.Apart segments (pathSegments c.place) := by
      intro segments w hw
      obtain ⟨before, after, heq, -⟩ := List.lookup_eq_some_iff.mp hw
      have hmem : (segments, w) ∈ bound.map (ChildSchema.replacement owner tree) := by simp [heq]
      obtain ⟨b, hb, hsame⟩ := List.mem_map.mp hmem
      obtain ⟨below, hbelow⟩ := b.segments_place
      obtain rfl : pathSegments b.place = segments := congrArg Prod.fst hsame
      rw [hbelow, hplace]
      exact (hbound b hb c List.mem_cons_self).append below more
    rw [List.foldl_cons, hbind, hmiddle]
    rw [hmiddle] at hapart
    refine ih (bound ++ [c]) hapart (fun c' hc' => hthere c' (List.mem_cons_of_mem c hc')) ?_ ?_ ?_
    · rw [Tree.segmented_replacePath _ _ horder]
      exact horder.replaced _ _
    · rw [Tree.unflatten_replacePath _ _ horder, hflat, List.map_append]
      exact Tree.setSegments_substituteFields (h.mono (fun _ hkeys => hkeys.1) fun _ _ => trivial)
        (pathSegments_ne_nil _) (hthere c List.mem_cons_self) hfree _
    · intro c' hc' key
      have hother := ((List.pairwise_cons.mp hrest).1 c' hc').append more (pathSegments key)
      rw [← hlookup c' (List.mem_cons_of_mem c hc'), ← Tree.lookup_segmented,
        Tree.segmented_replacePath _ _ horder, Tree.lookup_replaced, Tree.lookup_segmented]
      rw [hplace, pathSegments_append]
      exact hother.1

/-- Binding schemas that are embedded apart from each other in a tree substitutes their
sub-documents. -/
theorem unflatten_foldl_bind {tree : Fields} (h : Tree.IsPlain tree) (owner : String)
    {children : List ChildSchema}
    (hapart : children.Pairwise fun c c' =>
      Tree.Apart (pathSegments c.path) (pathSegments c'.path))
    (hthere : ∀ c ∈ children, (Tree.getPath? tree c.place).isSome = true) :
    Tree.unflatten (children.foldl (ChildSchema.bind owner) (Tree.flatten tree "")) =
      Tree.substitute (children.map (ChildSchema.replacement owner tree)) tree := by
  refine unflatten_foldl_bind_from h owner children [] hapart hthere ?_ ?_ fun _ _ _ => rfl
  · rw [Tree.segmented_flatten h.hasPlainPaths]
    exact Tree.isOrdered_leaves tree h
  · rw [Tree.unflatten_flatten h.hasPlainPaths]
    exact (Tree.substituteFields_nil [] tree).symm

end SchemaTypings
