import SchemaTypings.Naming
import SchemaTypings.Proofs.Trees.Paths

/-!
# Names of sub-documents are not empty

A name begins with that of the owner and goes on with the segments of the path, each with a capital.
At most the last character goes, so that a name stays when there is an owner and the segments hold
something.
-/

namespace SchemaTypings

namespace Text

/-- Every expansion in the table holds a character. -/
theorem upperExpansions_ne_nil :
    upperExpansions.all (fun e => !e.2.isEmpty) = true := by
  decide

/-- The upper case of a character is never empty. -/
theorem upperChar_ne_nil (c : Char) : upperChar c ≠ [] := by
  unfold upperChar
  split
  · exact List.cons_ne_nil _ _
  · unfold mapCase
    split
    · next points hpoints =>
      obtain ⟨entry, hentry, heq⟩ : ∃ entry ∈ upperExpansions, entry.2 = points := by
        obtain ⟨before, after, hsplit, -⟩ := List.lookup_eq_some_iff.mp hpoints
        exact ⟨(c.toNat, points), by simp [hsplit], rfl⟩
      have hne := List.all_eq_true.mp upperExpansions_ne_nil entry hentry
      subst heq
      simpa using hne
    · exact List.cons_ne_nil _ _

/-- A text that holds something still does with a capital. -/
theorem capitalize_ne_empty {s : String} (h : s ≠ "") : capitalize s ≠ "" := by
  unfold capitalize
  cases hs : s.toList with
  | nil => exact absurd (String.toList_eq_nil_iff.mp hs) h
  | cons c rest =>
    have hc := upperChar_ne_nil c
    simp [capitalizeChars, hc]

end Text

/-- Of a text with two characters or more something stays without the plural. -/
theorem dropPlural_ne_empty {s : String} (h : 2 ≤ s.length) : dropPlural s ≠ "" := by
  unfold dropPlural
  split
  · next rest hrest =>
    have hlength := congrArg List.length hrest
    rw [List.length_reverse, List.length_cons, String.length_toList] at hlength
    have hne : rest ≠ [] := by
      rintro rfl
      simp at hlength
      omega
    simpa using hne
  · rintro rfl
    simp at h

/-- The name of a sub-document is not empty when neither the owner's name is nor a segment of the
path. -/
theorem subDocumentName_ne_empty {path owner : String} (howner : owner ≠ "")
    (hpath : ∀ segment ∈ pathSegments path, segment ≠ "") : subDocumentName path owner ≠ "" := by
  obtain ⟨first, rest, hsegments⟩ := List.exists_cons_of_ne_nil (pathSegments_ne_nil path)
  have hfirst := Text.capitalize_ne_empty (hpath first (by simp [hsegments]))
  refine dropPlural_ne_empty ?_
  rw [hsegments, List.map_cons, String.join_cons, String.length_append, String.length_append]
  have h1 : 0 < owner.length := by
    rw [← String.length_toList]
    exact List.length_pos_iff.mpr fun h => howner (String.toList_eq_nil_iff.mp h)
  have h2 : 0 < (Text.capitalize first).length := by
    rw [← String.length_toList]
    exact List.length_pos_iff.mpr fun h => hfirst (String.toList_eq_nil_iff.mp h)
  omega

end SchemaTypings
