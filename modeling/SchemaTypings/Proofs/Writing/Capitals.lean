import SchemaTypings.Proofs.Writing.Identifiers

/-!
# Names made of capitals

What a path gives to a name is its segments with capitals, one after the other (`capitals`). Of the
signs in the path the dots go and the others stay (`mem_capitals_iff`). A name that begins with a
text as it would with its capital begins with a text that has one (`capitalize_of_append_eq`).
-/

namespace SchemaTypings

namespace Text

/-! ## Signs -/

/-- The character is one of those that stand in front of the letters. -/
def IsSign (c : Char) : Prop :=
  0 < c.toNat ∧ c.toNat < 65

instance (c : Char) : Decidable (IsSign c) := inferInstanceAs (Decidable (_ ∧ _))

theorem toNat_ofNat (n : Nat) : (Char.ofNat n).toNat = n ∨ (Char.ofNat n).toNat = 0 := by
  by_cases h : n.isValidChar
  · exact .inl (by rw [Char.ofNat, dif_pos h]; rfl)
  · exact .inr (by rw [Char.ofNat, dif_neg h]; rfl)

/-- The capitals of small letters are letters, and all else among the first characters stays. -/
theorem toUpper_ascii :
    (List.range 128).all (fun n => (Char.ofNat n).toUpper == Char.ofNat n ||
      decide (65 ≤ n ∧ 65 ≤ (Char.ofNat n).toUpper.toNat)) = true := by
  decide

theorem toUpper_of_lt {c : Char} (h : c.toNat < 128) :
    c.toUpper = c ∨ 65 ≤ c.toNat ∧ 65 ≤ c.toUpper.toNat := by
  have hall := List.all_eq_true.mp toUpper_ascii c.toNat (List.mem_range.mpr h)
  simpa only [Char.ofNat_toNat, Bool.or_eq_true, decide_eq_true_eq, beq_iff_eq] using hall

/-- The points that characters map to in the tables are those of letters or lie behind them. -/
theorem upperTables_ge :
    upperExpansions.all (fun e => e.2.all (65 ≤ ·)) = true ∧
      upperRuns.all (fun r => 65 ≤ (r.1 : Int) + r.2.2.2) = true := by
  decide

theorem shiftByRuns_ge {n : Nat} (h : 65 ≤ n) : 65 ≤ shiftByRuns upperRuns n := by
  unfold shiftByRuns
  dsimp only
  split
  · next first last step shift hfind =>
    have hall := List.all_eq_true.mp upperTables_ge.2 _ (List.mem_of_find?_eq_some hfind)
    have hholds := List.find?_some hfind
    simp only [Bool.and_eq_true, decide_eq_true_eq] at hall hholds
    omega
  · exact h

/-- A character that has a sign in its upper case is that sign. -/
theorem eq_of_isSign_of_mem_upperChar {c d : Char} (hd : IsSign d) (h : d ∈ upperChar c) :
    c = d := by
  obtain ⟨hpos, hsmall⟩ := hd
  unfold upperChar at h
  split at h
  · next hlt =>
    obtain rfl := List.mem_singleton.mp h
    rcases toUpper_of_lt hlt with heq | ⟨-, hge⟩
    · exact heq.symm
    · omega
  · next hlt =>
    -- beyond the first characters the tables lead to no sign
    have hpoint : ∀ {n : Nat}, d = Char.ofNat n → ¬65 ≤ n := by
      rintro n rfl
      have := toNat_ofNat n
      omega
    unfold mapCase at h
    split at h
    · next points hpoints =>
      obtain ⟨n, hn, heq⟩ := List.mem_map.mp h
      obtain ⟨before, after, hsplit, -⟩ := List.lookup_eq_some_iff.mp hpoints
      have hentry : (c.toNat, points) ∈ upperExpansions := by simp [hsplit]
      have hall := List.all_eq_true.mp (List.all_eq_true.mp upperTables_ge.1 _ hentry) n hn
      exact absurd (by simpa using hall) (hpoint heq.symm)
    · exact absurd (shiftByRuns_ge (by omega)) (hpoint (List.mem_singleton.mp h))

theorem upperChar_of_isSign {c : Char} (h : IsSign c) : upperChar c = [c] := by
  obtain ⟨-, hsmall⟩ := h
  have hlt : c.toNat < 128 := by omega
  have hupper : c.toUpper = c := (toUpper_of_lt hlt).resolve_right fun hge => by omega
  rw [upperChar, if_pos hlt, hupper]

/-- A text with a capital holds the signs that it holds without. -/
theorem mem_capitalize_iff {c : Char} (hc : IsSign c) {s : String} :
    c ∈ (capitalize s).toList ↔ c ∈ s.toList := by
  unfold capitalize
  rw [String.toList_ofList]
  cases s.toList with
  | nil => rfl
  | cons d rest =>
    rw [capitalizeChars, List.mem_append, List.mem_cons]
    refine or_congr_left ⟨fun h => (eq_of_isSign_of_mem_upperChar hc h).symm, ?_⟩
    rintro rfl
    rw [upperChar_of_isSign hc]
    exact List.mem_singleton_self c

/-! ## First characters -/

/-- No expansion begins with the character that it is of. -/
theorem upperExpansions_head :
    upperExpansions.all (fun e => e.2.head? != some e.1) = true := by
  decide

theorem upperChar_of_head {c : Char} {rest : List Char} (h : upperChar c = c :: rest) :
    upperChar c = [c] := by
  unfold upperChar at h ⊢
  split at h
  · next hlt => rw [if_pos hlt, h, (List.cons.inj h).2]
  · next hlt =>
    rw [if_neg hlt]
    unfold mapCase at h ⊢
    split at h
    · next points hpoints =>
      obtain ⟨before, after, hsplit, -⟩ := List.lookup_eq_some_iff.mp hpoints
      have hentry : (c.toNat, points) ∈ upperExpansions := by simp [hsplit]
      have hhead := List.all_eq_true.mp upperExpansions_head _ hentry
      obtain ⟨n, more, rfl⟩ : ∃ n more, points = n :: more := by
        cases points with
        | nil => simp at h
        | cons n more => exact ⟨n, more, rfl⟩
      -- the first point is that of the character or of none
      have hn := toNat_ofNat n
      rw [(List.cons.inj h).1] at hn
      simp at hhead
      omega
    · exact congrArg (· :: _) (List.cons.inj h).1

/-- A text that begins as it does with a capital has one already. -/
theorem capitalize_of_append_eq {s t u : String} (h : capitalize s ++ t = s ++ u) :
    capitalize s = s := by
  have hchars := congrArg String.toList h
  unfold capitalize at hchars ⊢
  rw [String.toList_append, String.toList_append, String.toList_ofList] at hchars
  refine String.toList_inj.mp ?_
  rw [String.toList_ofList]
  cases hs : s.toList with
  | nil => rfl
  | cons c rest =>
    rw [hs, capitalizeChars, List.cons_append, List.append_assoc] at hchars
    obtain ⟨d, more, hupper⟩ := List.exists_cons_of_ne_nil (upperChar_ne_nil c)
    rw [hupper, List.cons_append] at hchars
    obtain ⟨rfl, -⟩ := List.cons.inj hchars
    rw [capitalizeChars, upperChar_of_head hupper, List.singleton_append]

end Text

/-! ## Paths -/

/-- What a path gives to a name: its segments with capitals. -/
def capitals (path : String) : String :=
  String.join ((pathSegments path).map Text.capitalize)

theorem subDocumentName_eq (path owner : String) :
    subDocumentName path owner = dropPlural (owner ++ capitals path) :=
  rfl

/-- The signs among the capitals of a path are those that its segments hold. -/
theorem mem_capitals_iff {c : Char} (hc : Text.IsSign c) {path : String} :
    c ∈ (capitals path).toList ↔ ∃ segment ∈ pathSegments path, c ∈ segment.toList := by
  rw [capitals, String.toList_join]
  simp [Text.mem_capitalize_iff hc]

theorem dot_not_mem_capitals (path : String) : '.' ∉ (capitals path).toList := by
  rw [mem_capitals_iff (by decide)]
  rintro ⟨segment, hsegment, hdot⟩
  exact not_mem_of_mem_pathSegments hsegment hdot

/-- A quote in a path stays. -/
theorem quote_mem_capitals_iff {path : String} :
    '\'' ∈ (capitals path).toList ↔ '\'' ∈ path.toList := by
  rw [mem_capitals_iff (by decide)]
  constructor
  · rintro ⟨segment, hsegment, hquote⟩
    exact mem_of_mem_pathSegments hsegment hquote
  · intro hquote
    exact (eq_dot_or_mem_segment hquote).resolve_left (by decide)

theorem capitals_append (path key : String) :
    capitals (path ++ "." ++ key) = capitals path ++ capitals key := by
  unfold capitals
  rw [pathSegments_append, List.map_append, String.join_append]

/-- The capitals of paths with dots between them. -/
theorem capitals_intercalate {paths : List String} (h : paths ≠ []) :
    capitals (".".intercalate paths) = String.join (paths.map capitals) := by
  induction paths with
  | nil => exact absurd rfl h
  | cons path rest ih =>
    cases rest with
    | nil => simp
    | cons next others =>
      rw [String.intercalate_cons_cons, capitals_append, ih (List.cons_ne_nil _ _),
        ← String.join_cons, ← List.map_cons]

end SchemaTypings
