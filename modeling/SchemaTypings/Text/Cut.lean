/-!
# Cutting texts

A text is cut at each occurrence of a character; there is one piece more than there are occurrences,
and joining the pieces gives the text again.
-/

namespace SchemaTypings.Text

/-- The pieces of some characters between the occurrences of `separator`. -/
def cutChars (separator : Char) : List Char → List (List Char)
  | [] => [[]]
  | c :: rest =>
    if c = separator then [] :: cutChars separator rest
    else
      match cutChars separator rest with
      | [] => [[c]]
      | first :: others => (c :: first) :: others

/-- There is at least one piece. -/
theorem cutChars_ne_nil (separator : Char) (cs : List Char) : cutChars separator cs ≠ [] := by
  cases cs with
  | nil => simp [cutChars]
  | cons c rest =>
    unfold cutChars
    split
    · simp
    · split <;> simp

/-- Joining the pieces gives the characters again. -/
theorem intercalate_cutChars (separator : Char) (cs : List Char) :
    [separator].intercalate (cutChars separator cs) = cs := by
  induction cs with
  | nil => simp [cutChars]
  | cons c rest ih =>
    unfold cutChars
    cases h : cutChars separator rest with
    | nil => exact absurd h (cutChars_ne_nil separator rest)
    | cons first others =>
      rw [h] at ih
      split
      · next hc => cases others <;> simp_all [List.intercalate_cons_cons]
      · cases others <;> simp_all [List.intercalate_cons_cons]

/-- The pieces of a text. -/
def cut (separator : Char) (s : String) : List String :=
  (cutChars separator s.toList).map String.ofList

end SchemaTypings.Text
