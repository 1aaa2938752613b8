import SchemaTypings.Proofs.Trees.Paths

/-!
# What setting a value at a path changes

The way of a path leads through the dictionaries of its proper prefixes. Setting a value there is
setting it at what is left of the path in each of them (`fieldsAt_setSegments`), so that a
dictionary on the way keeps its keys in their order and gets at most one more, the last
(`keys_fieldsAt_setSegments`). Off the way everything is as before (`fieldsAt_setSegments_of_apart`),
and `setPath_frame` says all of this about a path.
-/

namespace SchemaTypings.Tree

/-- The fields that some segments lead to: those of the tree itself for no segments, and none where
no dictionary is. -/
def fieldsAt (tree : Fields) : List String → Fields
  | [] => tree
  | part :: rest => fieldsAt (below tree part) rest

/-- The fields of a dictionary that is read. -/
theorem fieldsAt_eq (tree : Fields) {path : List String} (h : path ≠ []) :
    fieldsAt tree path = match getSegments? tree path with
      | some (.dict fields) => fields
      | _ => [] := by
  induction path generalizing tree with
  | nil => exact absurd rfl h
  | cons part rest ih =>
    by_cases hrest : rest = []
    · subst hrest
      rfl
    · rw [fieldsAt, ih _ hrest, getSegments?_cons _ _ hrest]

/-- In a dictionary on its way a value is set at what is left of the path. -/
theorem fieldsAt_setSegments (tree : Fields) (above : List String) (part : String)
    (rest : List String) (v : Value) :
    fieldsAt (setSegments tree (above ++ part :: rest) v) above =
      setSegments (fieldsAt tree above) (part :: rest) v := by
  induction above generalizing tree with
  | nil => rfl
  | cons first above ih =>
    have hne : above ++ part :: rest ≠ [] := by simp
    rw [List.cons_append, setSegments_cons _ _ hne, fieldsAt, below_put_self, ih, fieldsAt]

/-- A proper prefix of the path is read as a dictionary. -/
theorem getSegments?_setSegments_prefix (tree : Fields) {above : List String} (h : above ≠ [])
    (part : String) (rest : List String) (v : Value) :
    getSegments? (setSegments tree (above ++ part :: rest) v) above =
      some (.dict (setSegments (fieldsAt tree above) (part :: rest) v)) := by
  induction above generalizing tree with
  | nil => exact absurd rfl h
  | cons first above ih =>
    have hne : above ++ part :: rest ≠ [] := by simp
    rw [List.cons_append, setSegments_cons _ _ hne]
    by_cases habove : above = []
    · subst habove
      exact Entries.lookup_put_self ..
    · rw [getSegments?_cons _ _ habove, below_put_self, ih _ habove, fieldsAt]

/-- A dictionary on the way keeps its keys, and gets the next segment as its last key when that is
new. -/
theorem keys_fieldsAt_setSegments (tree : Fields) (above : List String) (part : String)
    (rest : List String) (v : Value) :
    Entries.keys (fieldsAt (setSegments tree (above ++ part :: rest) v) above) =
      if part ∈ Entries.keys (fieldsAt tree above) then Entries.keys (fieldsAt tree above)
      else Entries.keys (fieldsAt tree above) ++ [part] := by
  obtain ⟨w, hw, -⟩ := setSegments_eq_put (fieldsAt tree above) part rest v
  rw [fieldsAt_setSegments, hw, Entries.keys_put]

/-- Off the way a dictionary is as before. -/
theorem fieldsAt_setSegments_of_apart (tree : Fields) {path other : List String}
    (h : Apart other path) (v : Value) :
    fieldsAt (setSegments tree path v) other = fieldsAt tree other := by
  rw [fieldsAt_eq _ h.ne_nil, fieldsAt_eq _ h.ne_nil, getSegments?_setSegments tree h]

/-- A value set a second time leaves nothing of the first. -/
theorem setSegments_setSegments (tree : Fields) {path : List String} (h : path ≠ []) (v w : Value) :
    setSegments (setSegments tree path v) path w = setSegments tree path w := by
  simpa using setSegments_append tree h [] w v

/-- A value set at a path is read there. At a path that neither begins with it nor is the beginning
of it everything reads as before, and a proper prefix reads as a dictionary. On the way every
dictionary keeps its keys in their places and gets at most one more, as the last, and every other
one keeps all its entries. Of two values set at the same path the second alone stays. -/
theorem setPath_frame (tree : Fields) (path : String) (v : Value) :
    getPath? (setPath tree path v) path = some v ∧
      (∀ other, Apart (pathSegments other) (pathSegments path) →
        getPath? (setPath tree path v) other = getPath? tree other) ∧
      (∀ other, pathSegments other <+: pathSegments path → other ≠ path →
        ∃ fields, getPath? (setPath tree path v) other = some (.dict fields)) ∧
      (∀ above part rest, pathSegments path = above ++ part :: rest →
        Entries.keys (fieldsAt (setPath tree path v) above) =
          if part ∈ Entries.keys (fieldsAt tree above) then Entries.keys (fieldsAt tree above)
          else Entries.keys (fieldsAt tree above) ++ [part]) ∧
      (∀ other, Apart other (pathSegments path) →
        fieldsAt (setPath tree path v) other = fieldsAt tree other) ∧
      ∀ w, setPath (setPath tree path v) path w = setPath tree path w := by
  have hne := pathSegments_ne_nil path
  refine ⟨getSegments?_setSegments_self tree hne v, fun other h => getSegments?_setSegments tree h v,
    fun other hbegins hother => ?_, fun above part rest hpath => ?_,
    fun other h => fieldsAt_setSegments_of_apart tree h v, setSegments_setSegments tree hne v⟩
  · obtain ⟨more, hmore⟩ := hbegins
    cases more with
    | nil => exact absurd (pathSegments_injective (by simpa using hmore)) hother
    | cons part rest =>
      rw [getPath?, setPath, ← hmore]
      exact ⟨_, getSegments?_setSegments_prefix tree (pathSegments_ne_nil other) part rest v⟩
  · rw [setPath, hpath]
    exact keys_fieldsAt_setSegments tree above part rest v

/-- A number that stands on the way of a path gives way to a dictionary with one key, and what is
apart from the path stays. -/
theorem setPath_frame_number :
    let tree : Fields := [("a", .int 1), ("b", .dict [("c", .null)])]
    (∃ fields, getPath? (setPath tree "a.d" .null) "a" = some (.dict fields)) ∧
      Entries.keys (fieldsAt (setPath tree "a.d" .null) ["a"]) = ["d"] ∧
      getPath? (setPath tree "a.d" .null) "b.c" = some .null ∧
      fieldsAt (setPath tree "a.d" .null) ["b"] = [("c", .null)] := by
  intro tree
  have hpath : pathSegments "a.d" = ["a", "d"] := by decide
  have hb : pathSegments "b.c" = ["b", "c"] := by decide
  obtain ⟨-, hreads, hbegins, hkeys, hfields, -⟩ := setPath_frame tree "a.d" .null
  refine ⟨hbegins "a" (by decide) (by decide), hkeys ["a"] "d" [] hpath, ?_, ?_⟩
  · rw [hreads "b.c" ⟨by decide, by decide⟩, getPath?, hb]
    rfl
  · exact hfields ["b"] ⟨by decide, by decide⟩

end SchemaTypings.Tree
