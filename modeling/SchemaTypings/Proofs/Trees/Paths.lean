import SchemaTypings.Tree

/-!
# Setting and reading at paths

A dotted path stands for its segments, and a value set at a list of segments is read there again.
What is set below a path is lost when the path itself is set (`setSegments_append`), and values set
at two paths of which neither is part of the other do not disturb each other: the one is read as
before (`getSegments?_setSegments`), and the order in which they are set matters for the order of
the keys alone, not even for that when one of them is there already (`setSegments_comm`).
-/

namespace SchemaTypings.Text

/-- Cutting at a separator cuts both sides of it. -/
theorem cutChars_append (separator : Char) (cs ds : List Char) :
    cutChars separator (cs ++ separator :: ds) =
      cutChars separator cs ++ cutChars separator ds := by
  induction cs with
  | nil => simp [cutChars]
  | cons c rest ih =>
    simp only [List.cons_append, cutChars, ih]
    split
    · rfl
    · cases h : cutChars separator rest with
      | nil => exact absurd h (cutChars_ne_nil separator rest)
      | cons first others => rfl

/-- A text without a separator is one piece. -/
theorem cutChars_of_not_mem {separator : Char} {cs : List Char} (h : separator ∉ cs) :
    cutChars separator cs = [cs] := by
  induction cs with
  | nil => rfl
  | cons c rest ih =>
    simp only [List.mem_cons, not_or] at h
    simp only [cutChars, if_neg (Ne.symm h.1), ih h.2]

/-- Two joined lists with the separator between them are the join of both. -/
theorem intercalate_append (separator : Char) {xs ys : List (List Char)} (hxs : xs ≠ [])
    (hys : ys ≠ []) :
    [separator].intercalate (xs ++ ys) =
      [separator].intercalate xs ++ separator :: [separator].intercalate ys := by
  induction xs with
  | nil => exact absurd rfl hxs
  | cons x rest ih =>
    cases rest with
    | nil =>
      obtain ⟨y, ys, rfl⟩ := List.exists_cons_of_ne_nil hys
      simp [List.intercalate_cons_cons]
    | cons x' rest =>
      have hrest := ih (List.cons_ne_nil x' rest)
      rw [List.cons_append] at hrest
      simp [List.intercalate_cons_cons, hrest]

/-- A joined text is its first part and the others, with the separator in front of each. -/
theorem intercalate_eq_join (separator first : String) (texts : List String) :
    separator.intercalate (first :: texts) = first ++ String.join (texts.map (separator ++ ·)) := by
  induction texts generalizing first with
  | nil => simp
  | cons text texts ih =>
    rw [String.intercalate_cons_cons, ih, List.map_cons, String.join_cons]
    simp only [String.append_assoc]

/-- The characters of joined lists are separators and those of the lists. -/
theorem eq_or_mem_of_mem_intercalate {separator c : Char} {pieces : List (List Char)}
    (h : c ∈ [separator].intercalate pieces) : c = separator ∨ ∃ piece ∈ pieces, c ∈ piece := by
  induction pieces with
  | nil => exact absurd h (by simp)
  | cons piece rest ih =>
    cases rest with
    | nil => exact .inr ⟨piece, by simp, by simpa using h⟩
    | cons next others =>
      rw [List.intercalate_cons_cons] at h
      simp only [List.mem_append, List.mem_singleton] at h
      rcases h with (h | h) | h
      · exact .inr ⟨piece, by simp, h⟩
      · exact .inl h
      · refine (ih h).imp_right ?_
        rintro ⟨p, hp, hcp⟩
        exact ⟨p, List.mem_cons_of_mem _ hp, hcp⟩

/-- No piece holds the separator. -/
theorem not_mem_of_mem_cutChars {separator : Char} {cs piece : List Char}
    (h : piece ∈ cutChars separator cs) : separator ∉ piece := by
  induction cs generalizing piece with
  | nil =>
    rw [cutChars, List.mem_singleton] at h
    simp [h]
  | cons c rest ih =>
    rw [cutChars] at h
    split at h
    · rcases List.mem_cons.mp h with rfl | h
      · simp
      · exact ih h
    · next hc =>
      cases hrest : cutChars separator rest with
      | nil => exact absurd hrest (cutChars_ne_nil separator rest)
      | cons first others =>
        rw [hrest] at h ih
        rcases List.mem_cons.mp h with rfl | h
        · have hfirst := ih (List.mem_cons_self ..)
          simp [hfirst, Ne.symm hc]
        · exact ih (List.mem_cons_of_mem _ h)

/-- The pieces hold nothing but what is cut. -/
theorem mem_of_mem_cutChars {separator c : Char} {cs piece : List Char}
    (h : piece ∈ cutChars separator cs) (hc : c ∈ piece) : c ∈ cs := by
  induction cs generalizing piece with
  | nil =>
    rw [cutChars, List.mem_singleton] at h
    rwa [h] at hc
  | cons d rest ih =>
    rw [cutChars] at h
    split at h
    · rcases List.mem_cons.mp h with rfl | h
      · exact absurd hc List.not_mem_nil
      · exact List.mem_cons_of_mem _ (ih h hc)
    · cases hrest : cutChars separator rest with
      | nil => exact absurd hrest (cutChars_ne_nil separator rest)
      | cons first others =>
        rw [hrest] at h ih
        rcases List.mem_cons.mp h with rfl | h
        · rcases List.mem_cons.mp hc with rfl | hc
          · exact List.mem_cons_self
          · exact List.mem_cons_of_mem _ (ih List.mem_cons_self hc)
        · exact List.mem_cons_of_mem _ (ih (List.mem_cons_of_mem _ h) hc)

end SchemaTypings.Text

namespace SchemaTypings

/-! ## Segments -/

/-- A path has at least one segment. -/
theorem pathSegments_ne_nil (path : String) : pathSegments path ≠ [] := by
  simp [pathSegments, Text.cut, Text.cutChars_ne_nil]

/-- The segments of two paths with a dot between them. -/
theorem pathSegments_append (path key : String) :
    pathSegments (path ++ "." ++ key) = pathSegments path ++ pathSegments key := by
  have h : (path ++ "." ++ key).toList = path.toList ++ '.' :: key.toList := by simp
  rw [pathSegments, Text.cut, h, Text.cutChars_append, List.map_append]
  rfl

/-- A key without a dot is its only segment. -/
theorem pathSegments_of_not_mem {key : String} (h : '.' ∉ key.toList) :
    pathSegments key = [key] := by
  simp [pathSegments, Text.cut, Text.cutChars_of_not_mem h]

/-- A segment holds no dot. -/
theorem not_mem_of_mem_pathSegments {path segment : String} (h : segment ∈ pathSegments path) :
    '.' ∉ segment.toList := by
  obtain ⟨piece, hpiece, rfl⟩ := List.mem_map.mp h
  rw [String.toList_ofList]
  exact Text.not_mem_of_mem_cutChars hpiece

/-- The segments hold nothing but characters of the path. -/
theorem mem_of_mem_pathSegments {path segment : String} (h : segment ∈ pathSegments path) {c : Char}
    (hc : c ∈ segment.toList) : c ∈ path.toList := by
  obtain ⟨piece, hpiece, rfl⟩ := List.mem_map.mp h
  rw [String.toList_ofList] at hc
  exact Text.mem_of_mem_cutChars hpiece hc

/-- A path is determined by its segments. -/
theorem pathSegments_injective {path other : String}
    (h : pathSegments path = pathSegments other) : path = other := by
  have hcut : Text.cutChars '.' path.toList = Text.cutChars '.' other.toList := by
    have := congrArg (List.map String.toList) h
    simpa [pathSegments, Text.cut, List.map_map, Function.comp_def] using this
  have hchars := congrArg (List.intercalate ['.']) hcut
  rw [Text.intercalate_cutChars, Text.intercalate_cutChars] at hchars
  exact String.toList_inj.mp hchars

/-- A key whose segments begin with those of a path is the path with a dot and more behind it, or
the path itself. -/
theorem eq_append_of_segments {path key : String} (h : pathSegments path <+: pathSegments key)
    (hne : path ≠ key) : ∃ rest, key = path ++ "." ++ rest := by
  obtain ⟨more, hmore⟩ := h
  have hmore' : more.map String.toList ≠ [] := by
    intro hnil
    rw [List.map_eq_nil_iff.mp hnil, List.append_nil] at hmore
    exact hne (pathSegments_injective hmore)
  have hcut : Text.cutChars '.' key.toList =
      Text.cutChars '.' path.toList ++ more.map String.toList := by
    have := congrArg (List.map String.toList) hmore.symm
    simpa [pathSegments, Text.cut, List.map_map, Function.comp_def] using this
  refine ⟨String.ofList (['.'].intercalate (more.map String.toList)), String.toList_inj.mp ?_⟩
  rw [← Text.intercalate_cutChars '.' key.toList, hcut,
    Text.intercalate_append '.' (Text.cutChars_ne_nil _ _) hmore', Text.intercalate_cutChars]
  simp

/-- A key is at or under a path when its segments begin with those of the path. -/
theorem Tree.isAtOrUnder_iff {path key : String} :
    Tree.isAtOrUnder path key = true ↔ pathSegments path <+: pathSegments key := by
  simp only [Tree.isAtOrUnder, Bool.or_eq_true, beq_iff_eq, List.isPrefixOf_iff_prefix]
  constructor
  · rintro (rfl | ⟨rest, hrest⟩)
    · exact List.prefix_rfl
    · have hkey : key = path ++ "." ++ String.ofList rest := String.toList_inj.mp (by simp [← hrest])
      rw [hkey, pathSegments_append]
      exact List.prefix_append ..
  · intro h
    by_cases hne : path = key
    · exact .inl hne.symm
    · obtain ⟨rest, rfl⟩ := eq_append_of_segments h hne
      exact .inr ⟨rest.toList, by simp⟩

/-! ## Putting entries -/

namespace Entries

variable {α : Type}

/-- Of two values put under a key the second stays. -/
theorem put_put (entries : List (String × α)) (key : String) (v w : α) :
    put (put entries key v) key w = put entries key w := by
  induction entries with
  | nil => simp [put]
  | cons e rest ih =>
    obtain ⟨k, old⟩ := e
    by_cases h : k = key
    · simp [put, h]
    · simp [put, h, ih]

/-- A value put under a key that is there keeps its place, whatever comes under another key. -/
theorem put_comm {entries : List (String × α)} {key other : String} (v w : α)
    (h : key ∈ keys entries) (hne : key ≠ other) :
    put (put entries other w) key v = put (put entries key v) other w := by
  induction entries with
  | nil => simp [keys] at h
  | cons e rest ih =>
    obtain ⟨k, old⟩ := e
    by_cases hk : k = key
    · subst hk
      simp [put, hne]
    · have hrest : key ∈ keys rest := by
        simpa [keys, Ne.symm hk] using h
      by_cases ho : k = other
      · subst ho
        simp [put, hk]
      · simp [put, hk, ho, ih hrest]

/-- A value put under a new key comes last. -/
theorem put_of_not_mem {entries : List (String × α)} {key : String} (v : α)
    (h : key ∉ keys entries) : put entries key v = entries ++ [(key, v)] := by
  induction entries with
  | nil => rfl
  | cons e rest ih =>
    obtain ⟨k, old⟩ := e
    simp only [keys, List.map_cons, List.mem_cons, not_or] at h
    rw [put, if_neg (Ne.symm h.1), ih h.2, List.cons_append]

/-- What a key holds is one of the entries. -/
theorem mem_keys_of_lookup {entries : List (String × α)} {key : String} {v : α}
    (h : entries.lookup key = some v) : key ∈ keys entries := by
  induction entries with
  | nil => simp at h
  | cons e rest ih =>
    obtain ⟨k, old⟩ := e
    by_cases hk : key = k
    · simp [keys, hk]
    · have hb : (key == k) = false := by simpa using hk
      rw [List.lookup_cons, hb] at h
      exact List.mem_cons_of_mem _ (ih h)

/-- Putting a value adds no other key than its own. -/
theorem eq_or_mem_of_mem_keys_put {entries : List (String × α)} {key other : String} {v : α}
    (h : other ∈ keys (put entries key v)) : other = key ∨ other ∈ keys entries := by
  rw [keys_put] at h
  split at h
  · exact .inr h
  · rcases List.mem_append.mp h with h | h
    · exact .inr h
    · exact .inl (List.mem_singleton.mp h)

/-- Putting a value adds no other entry than its own. -/
theorem eq_or_mem_of_mem_put {entries : List (String × α)} {key : String} {v : α} {e : String × α}
    (h : e ∈ put entries key v) : e = (key, v) ∨ e ∈ entries := by
  induction entries with
  | nil => exact .inl (List.mem_singleton.mp h)
  | cons first rest ih =>
    obtain ⟨k, old⟩ := first
    rw [put] at h
    split at h
    · next hk =>
      rcases List.mem_cons.mp h with rfl | h
      · exact .inl (by rw [hk])
      · exact .inr (List.mem_cons_of_mem _ h)
    · rcases List.mem_cons.mp h with rfl | h
      · exact .inr List.mem_cons_self
      · exact (ih h).imp_right (List.mem_cons_of_mem _)

/-- Putting a value keeps keys distinct. -/
theorem nodup_keys_put {entries : List (String × α)} (h : (keys entries).Nodup) (key : String)
    (v : α) : (keys (put entries key v)).Nodup := by
  rw [keys_put]
  split
  · exact h
  · next hnew =>
    rw [List.nodup_append]
    refine ⟨h, List.pairwise_singleton .., fun k hk other hother heq => ?_⟩
    rw [List.mem_singleton.mp hother] at heq
    exact hnew (heq ▸ hk)

/-- A key that is not there holds nothing. -/
theorem lookup_of_not_mem {entries : List (String × α)} {key : String}
    (h : key ∉ keys entries) : entries.lookup key = none := by
  cases hv : entries.lookup key with
  | none => rfl
  | some v => exact absurd (mem_keys_of_lookup hv) h

/-- An entry is what its key holds when no other has the key. -/
theorem lookup_of_mem {entries : List (String × α)} (hnodup : (keys entries).Nodup) {key : String}
    {v : α} (h : (key, v) ∈ entries) : entries.lookup key = some v := by
  induction entries with
  | nil => exact absurd h List.not_mem_nil
  | cons e rest ih =>
    obtain ⟨k, old⟩ := e
    obtain ⟨hfresh, hrest⟩ := List.nodup_cons.mp hnodup
    rcases List.mem_cons.mp h with heq | h
    · obtain ⟨rfl, rfl⟩ := Prod.mk.inj heq
      exact List.lookup_cons_self
    · have hmem : key ∈ keys rest := List.mem_map_of_mem h
      have hne : (key == k) = false := by
        simpa using fun heq : key = k => hfresh (heq ▸ hmem)
      rw [List.lookup_cons, hne]
      exact ih hrest h

end Entries

/-! ## Setting at segments -/

namespace Tree

theorem below_put_self (tree : Fields) (key : String) (fields : Fields) :
    below (Entries.put tree key (.dict fields)) key = fields := by
  simp [below, Entries.lookup_put_self]

theorem below_put_of_ne (tree : Fields) {key other : String} (v : Value) (h : other ≠ key) :
    below (Entries.put tree key v) other = below tree other := by
  simp [below, Entries.lookup_put_of_ne tree v h]

theorem below_of_not_mem {tree : Fields} {key : String} (h : key ∉ Entries.keys tree) :
    below tree key = [] := by
  simp [below, Entries.lookup_of_not_mem h]

theorem setSegments_cons (tree : Fields) (part : String) {rest : List String} (h : rest ≠ [])
    (v : Value) :
    setSegments tree (part :: rest) v =
      Entries.put tree part (.dict (setSegments (below tree part) rest v)) := by
  cases rest with
  | nil => exact absurd rfl h
  | cons => rfl

/-- What is set changes the entry of its first segment alone. -/
theorem setSegments_eq_put (tree : Fields) (part : String) (rest : List String) (v : Value) :
    ∃ w, setSegments tree (part :: rest) v = Entries.put tree part w ∧
      ∀ other : Fields, below other part = below tree part →
        setSegments other (part :: rest) v = Entries.put other part w := by
  cases rest with
  | nil => exact ⟨v, rfl, fun _ _ => rfl⟩
  | cons next rest => exact ⟨_, rfl, fun other h => by simp [setSegments, h]⟩

theorem getSegments?_cons (tree : Fields) (part : String) {rest : List String} (h : rest ≠ []) :
    getSegments? tree (part :: rest) = getSegments? (below tree part) rest := by
  obtain ⟨next, rest, rfl⟩ := List.exists_cons_of_ne_nil h
  simp only [getSegments?, below]
  cases tree.lookup part with
  | none => cases rest <;> rfl
  | some v =>
    cases v with
    | dict => rfl
    | _ => cases rest <;> rfl

/-- What is set at segments is read there. -/
theorem getSegments?_setSegments_self (tree : Fields) {path : List String} (h : path ≠ [])
    (v : Value) : getSegments? (setSegments tree path v) path = some v := by
  induction path generalizing tree with
  | nil => exact absurd rfl h
  | cons part rest ih =>
    by_cases hrest : rest = []
    · subst hrest
      exact Entries.lookup_put_self tree part v
    · rw [getSegments?_cons _ _ hrest, setSegments_cons _ _ hrest, below_put_self, ih _ hrest]

/-- What is set below some segments makes a dictionary there. -/
theorem isSome_getSegments?_setSegments (tree : Fields) {path : List String} (h : path ≠ [])
    (more : List String) (v : Value) :
    (getSegments? (setSegments tree (path ++ more) v) path).isSome = true := by
  induction path generalizing tree with
  | nil => exact absurd rfl h
  | cons part rest ih =>
    by_cases hrest : rest = []
    · subst hrest
      obtain ⟨w, hw, -⟩ := setSegments_eq_put tree part more v
      rw [List.cons_append, List.nil_append, hw]
      simp [getSegments?, Entries.lookup_put_self]
    · have hne : rest ++ more ≠ [] := by simp [hrest]
      rw [getSegments?_cons _ _ hrest, List.cons_append, setSegments_cons _ _ hne, below_put_self]
      exact ih _ hrest

/-- Of what is set below some segments nothing stays when they are set themselves. -/
theorem setSegments_append (tree : Fields) {path : List String} (h : path ≠ [])
    (more : List String) (v w : Value) :
    setSegments (setSegments tree (path ++ more) w) path v = setSegments tree path v := by
  induction path generalizing tree with
  | nil => exact absurd rfl h
  | cons part rest ih =>
    by_cases hrest : rest = []
    · subst hrest
      obtain ⟨x, hx, -⟩ := setSegments_eq_put tree part more w
      rw [List.cons_append, List.nil_append, hx]
      exact Entries.put_put ..
    · have hne : rest ++ more ≠ [] := by simp [hrest]
      rw [List.cons_append, setSegments_cons _ _ hne, setSegments_cons _ _ hrest, below_put_self,
        Entries.put_put, ih _ hrest, ← setSegments_cons _ _ hrest]

/-- Lists of segments of which neither begins with the other. -/
def Apart (path other : List String) : Prop :=
  ¬ path <+: other ∧ ¬ other <+: path

theorem Apart.symm {path other : List String} (h : Apart path other) : Apart other path :=
  ⟨h.2, h.1⟩

/-- Two lists of segments that are apart have a first segment each, and are apart there or behind. -/
theorem Apart.cases {path other : List String} (h : Apart path other) :
    ∃ p ps q qs, path = p :: ps ∧ other = q :: qs ∧ (p ≠ q ∨ p = q ∧ Apart ps qs) := by
  obtain ⟨h1, h2⟩ := h
  cases path with
  | nil => exact absurd (List.nil_prefix) h1
  | cons p ps =>
    cases other with
    | nil => exact absurd (List.nil_prefix) h2
    | cons q qs =>
      refine ⟨p, ps, q, qs, rfl, rfl, ?_⟩
      by_cases hpq : p = q
      · subst hpq
        simp only [List.cons_prefix_cons, true_and] at h1 h2
        exact .inr ⟨rfl, h1, h2⟩
      · exact .inl hpq

theorem Apart.ne_nil {path other : List String} (h : Apart path other) : path ≠ [] := by
  rintro rfl
  exact h.1 List.nil_prefix

/-- What is set at segments is nothing to what is read apart from them. -/
theorem getSegments?_setSegments (tree : Fields) {path other : List String}
    (h : Apart path other) (v : Value) :
    getSegments? (setSegments tree other v) path = getSegments? tree path := by
  induction path generalizing tree other with
  | nil => exact absurd rfl h.ne_nil
  | cons p ps ih =>
    obtain ⟨_, _, q, qs, heq, rfl, hcases⟩ := h.cases
    obtain ⟨rfl, rfl⟩ := List.cons.inj heq
    rcases hcases with hne | ⟨rfl, hrest⟩
    · obtain ⟨w, hw, -⟩ := setSegments_eq_put tree q qs v
      rw [hw]
      cases ps with
      | nil => exact Entries.lookup_put_of_ne tree w hne
      | cons next rest =>
        simp only [getSegments?, Entries.lookup_put_of_ne tree w hne]
    · rw [getSegments?_cons _ _ hrest.ne_nil, setSegments_cons _ _ hrest.symm.ne_nil,
        below_put_self, ih _ hrest, getSegments?_cons _ _ hrest.ne_nil]

/-- A key that is read somewhere at or below it is there. -/
theorem mem_keys_of_getSegments? {tree : Fields} {part : String} {rest : List String}
    (h : (getSegments? tree (part :: rest)).isSome = true) : part ∈ Entries.keys tree := by
  refine Decidable.byContradiction fun hpart => ?_
  cases rest with
  | nil => simp [getSegments?, Entries.lookup_of_not_mem hpart] at h
  | cons => simp [getSegments?, Entries.lookup_of_not_mem hpart] at h

/-- Values set at segments that are apart may be set in either order when the first of them are
there already. -/
theorem setSegments_comm {tree : Fields} {path other : List String} (h : Apart path other)
    (hpath : (getSegments? tree path).isSome = true) (v w : Value) :
    setSegments (setSegments tree other w) path v =
      setSegments (setSegments tree path v) other w := by
  induction path generalizing tree other with
  | nil => exact absurd rfl h.ne_nil
  | cons p ps ih =>
    obtain ⟨_, _, q, qs, heq, rfl, hcases⟩ := h.cases
    obtain ⟨rfl, rfl⟩ := List.cons.inj heq
    rcases hcases with hne | ⟨rfl, hrest⟩
    · obtain ⟨x, hx, hx'⟩ := setSegments_eq_put tree p ps v
      obtain ⟨y, hy, hy'⟩ := setSegments_eq_put tree q qs w
      rw [hx, hy, hx' _ (below_put_of_ne tree y hne), hy' _ (below_put_of_ne tree x hne.symm)]
      exact Entries.put_comm x y (mem_keys_of_getSegments? hpath) hne
    · have hps := hrest.ne_nil
      have hqs := hrest.symm.ne_nil
      rw [getSegments?_cons _ _ hps] at hpath
      rw [setSegments_cons _ _ hqs, setSegments_cons _ _ hps, setSegments_cons _ _ hps,
        setSegments_cons _ _ hqs, below_put_self, below_put_self, Entries.put_put,
        Entries.put_put, ih hrest hpath]

end Tree

end SchemaTypings
