import SchemaTypings.Proofs.Generation.Unions
import SchemaTypings.TypeHint.Hints

/-!
# What annotations are made of

`TypeHint.Every` says what the texts, names and literals in an annotation are like, at any depth,
and is kept when the annotation is evaluated and its metadata dropped. `Composes` are the properties
of texts that hold of the type of an annotation when they hold of its parts (`Composes.typing`): the
induction over annotations is made once, and a property of their types is shown constructor by
constructor.
-/

namespace SchemaTypings

namespace TypeHint

section Every

variable (N : String → Prop) (L : List LiteralValue → Prop)

mutual
/-- The texts and names in an annotation satisfy `N`, the values of each literal in it satisfy `L`,
and each union in it has members. -/
def Every : TypeHint → Prop
  | .text s => N s
  | .forward s => N s
  | .generic _ arguments => EveryAll arguments
  | .function parameters result => EveryAll parameters ∧ result.Every
  | .union _ members => members ≠ [] ∧ EveryAll members
  | .literal values => L values
  | .annotated inner => inner.Every
  | .alias target => target.Every
  | .nothing => True
  | .constant => True
  | .type _ => True
  termination_by structural a => a

/-- Each of some annotations satisfies `Every`. -/
def EveryAll : List TypeHint → Prop
  | [] => True
  | a :: rest => a.Every ∧ EveryAll rest
  termination_by structural as => as
end

end Every

variable {N : String → Prop} {L : List LiteralValue → Prop}

theorem everyAll_iff {as : List TypeHint} : EveryAll N L as ↔ ∀ a ∈ as, a.Every N L := by
  induction as with
  | nil => simp [EveryAll]
  | cons a as ih => simp [EveryAll, ih]

/-- The types of some annotations, one by one. -/
theorem typings_eq_map (as : List TypeHint) : typings as = as.map (typing · false) := by
  induction as with
  | nil => rfl
  | cons a as ih => rw [typings, ih, List.map_cons]

/-! ## Unions -/

/-- The members that are kept so far, with one more unless it repeats one of them. -/
def keepNew (kept : List TypeHint) (a : TypeHint) : List TypeHint :=
  if kept.any (same a) then kept else a :: kept

theorem dropRepeated_eq (as : List TypeHint) :
    dropRepeated as = (as.foldl keepNew []).reverse :=
  rfl

theorem mem_keepNew {kept : List TypeHint} {a b : TypeHint} (h : b ∈ keepNew kept a) :
    b ∈ kept ∨ b = a := by
  unfold keepNew at h
  split at h
  · exact .inl h
  · exact (List.mem_cons.mp h).symm

theorem keepNew_ne_nil {kept : List TypeHint} (h : kept ≠ []) (a : TypeHint) :
    keepNew kept a ≠ [] := by
  unfold keepNew
  split
  · exact h
  · exact List.cons_ne_nil a kept

/-- What is kept when repeated members are dropped was there before. -/
theorem mem_of_mem_dropRepeated {as : List TypeHint} {a : TypeHint} (h : a ∈ dropRepeated as) :
    a ∈ as := by
  -- at every step what is kept is among all annotations
  have hkept : ∀ b ∈ as.foldl keepNew [], b ∈ as := by
    refine List.foldlRecOn (motive := fun kept => ∀ b ∈ kept, b ∈ as) as keepNew (by simp)
      fun kept ih c hc b hb => ?_
    rcases mem_keepNew hb with hb | rfl
    · exact ih b hb
    · exact hc
  exact hkept a (List.mem_reverse.mp h)

/-- Something is left when repeated members are dropped. -/
theorem dropRepeated_ne_nil {as : List TypeHint} (h : as ≠ []) : dropRepeated as ≠ [] := by
  obtain ⟨a, as, rfl⟩ := List.exists_cons_of_ne_nil h
  -- the first annotation is kept, whatever follows
  have hkept : as.foldl keepNew [a] ≠ [] :=
    List.foldlRecOn (motive := (· ≠ [])) as keepNew (by simp) fun _ ih b _ => keepNew_ne_nil ih b
  exact mt List.reverse_eq_nil_iff.mp hkept

/-- An annotation contributes something to a union. -/
theorem unionMembers_every {a : TypeHint} (h : a.Every N L) :
    a.unionMembers ≠ [] ∧ ∀ b ∈ a.unionMembers, b.Every N L := by
  cases a with
  | union spelling members => exact ⟨h.1, everyAll_iff.mp h.2⟩
  | type t => cases t <;> exact ⟨by simp [unionMembers], by simp [unionMembers, Every]⟩
  | text s => exact ⟨by simp [unionMembers], by simpa [unionMembers, Every] using h⟩
  | _ => exact ⟨by simp [unionMembers], by simpa [unionMembers] using h⟩

/-- The union of annotations is made of what they are made of. -/
theorem unionOf_every (spelling : UnionSpelling) {as : List TypeHint} (hne : as ≠ [])
    (h : ∀ a ∈ as, a.Every N L) : (unionOf spelling as).Every N L := by
  have hmembers : as.flatMap unionMembers ≠ [] ∧
      ∀ b ∈ as.flatMap unionMembers, b.Every N L := by
    obtain ⟨a, rest, rfl⟩ := List.exists_cons_of_ne_nil hne
    refine ⟨?_, fun b hb => ?_⟩
    · simpa using fun hnil => absurd hnil (unionMembers_every (h a (by simp))).1
    · obtain ⟨a', ha', hb⟩ := List.mem_flatMap.mp hb
      exact (unionMembers_every (h a' ha')).2 b hb
  have hkept : ∀ b ∈ dropRepeated (as.flatMap unionMembers), b.Every N L := fun b hb =>
    hmembers.2 b (mem_of_mem_dropRepeated hb)
  have hsome := dropRepeated_ne_nil hmembers.1
  unfold unionOf
  split
  · rename_i a heq
    exact hkept a (by simp [heq])
  · exact ⟨hsome, everyAll_iff.mpr hkept⟩

/-! ## Evaluation -/

variable {denotes : String → Option TypeHint}

mutual
/-- An annotation is evaluated to one that is made of the same things, when what the texts in it
denote is. -/
theorem evaluate?_every (hdenotes : ∀ s, N s → ∀ b ∈ denotes s, b.Every N L) {a b : TypeHint}
    (h : a.Every N L) (heval : a.evaluate? denotes = some b) : b.Every N L := by
  cases a with
  | text s => exact hdenotes s h b heval
  | forward s => exact hdenotes s h b heval
  | generic head arguments =>
    obtain ⟨bs, hbs, rfl⟩ := Option.map_eq_some_iff.mp heval
    exact (evaluateAll?_every hdenotes h hbs).1
  | function parameters result =>
    simp only [evaluate?, Option.bind_eq_bind, Option.bind_eq_some_iff, pure,
      Option.some.injEq] at heval
    obtain ⟨ps, hps, r, hr, rfl⟩ := heval
    exact ⟨(evaluateAll?_every hdenotes h.1 hps).1, evaluate?_every hdenotes h.2 hr⟩
  | union spelling members =>
    obtain ⟨bs, hbs, rfl⟩ := Option.map_eq_some_iff.mp heval
    obtain ⟨hevery, hlength⟩ := evaluateAll?_every hdenotes h.2 hbs
    -- as many members are evaluated as there are
    refine unionOf_every spelling (fun hnil => h.1 ?_) (everyAll_iff.mp hevery)
    exact List.length_eq_zero_iff.mp (hlength ▸ List.length_eq_zero_iff.mpr hnil)
  | annotated inner =>
    obtain ⟨c, hc, rfl⟩ := Option.map_eq_some_iff.mp heval
    have hinner : inner.Every N L := h
    exact evaluate?_every hdenotes (b := c) hinner hc
  | nothing | constant | type | literal | «alias» =>
    obtain rfl := Option.some.inj heval
    exact h

theorem evaluateAll?_every (hdenotes : ∀ s, N s → ∀ b ∈ denotes s, b.Every N L)
    {as bs : List TypeHint} (h : EveryAll N L as) (heval : evaluateAll? denotes as = some bs) :
    EveryAll N L bs ∧ bs.length = as.length := by
  cases as with
  | nil =>
    obtain rfl := Option.some.inj heval
    exact ⟨trivial, rfl⟩
  | cons a as =>
    simp only [evaluateAll?, Option.bind_eq_bind, Option.bind_eq_some_iff, pure,
      Option.some.injEq] at heval
    obtain ⟨b, hb, cs, hcs, rfl⟩ := heval
    obtain ⟨hrest, hlength⟩ := evaluateAll?_every hdenotes h.2 hcs
    exact ⟨⟨evaluate?_every hdenotes h.1 hb, hrest⟩, by simp [hlength]⟩
end

mutual
/-- An annotation without metadata is made of the same things. -/
theorem dropMetadata_every {a : TypeHint} (h : a.Every N L) : a.dropMetadata.Every N L := by
  cases a with
  | annotated inner => exact dropMetadata_every (a := inner) h
  | generic head arguments => exact (dropMetadataAll_every h).1
  | function parameters result => exact ⟨(dropMetadataAll_every h.1).1, dropMetadata_every h.2⟩
  | union spelling members =>
    obtain ⟨hevery, hlength⟩ := dropMetadataAll_every h.2
    refine unionOf_every spelling (fun hnil => h.1 ?_) (everyAll_iff.mp hevery)
    exact List.length_eq_zero_iff.mp (hlength ▸ List.length_eq_zero_iff.mpr hnil)
  | _ => exact h

theorem dropMetadataAll_every {as : List TypeHint} (h : EveryAll N L as) :
    EveryAll N L (dropMetadataAll as) ∧ (dropMetadataAll as).length = as.length := by
  cases as with
  | nil => exact ⟨trivial, rfl⟩
  | cons a as =>
    obtain ⟨hrest, hlength⟩ := dropMetadataAll_every h.2
    exact ⟨⟨dropMetadata_every h.1, hrest⟩, by simp [dropMetadataAll, hlength]⟩
end

end TypeHint

/-! ## The texts of types -/

/-- What holds of texts and of two of them around a separator holds of all of them in a row. -/
theorem intercalate_induction {P : String → Prop} {separator : String}
    (h : ∀ s t, P s → P t → P (s ++ separator ++ t)) {texts : List String} (hne : texts ≠ [])
    (htexts : ∀ s ∈ texts, P s) : P (separator.intercalate texts) := by
  induction texts with
  | nil => exact absurd rfl hne
  | cons s texts ih =>
    cases texts with
    | nil => simpa using htexts s (by simp)
    | cons t texts =>
      rw [String.intercalate_cons_cons]
      exact h _ _ (htexts s (by simp)) (ih (by simp) fun u hu => htexts u (by simp [hu]))

/-- The characters of an array type. An element with a blank is put in parentheses. -/
theorem toList_arrayText (element : String) :
    (arrayText element).toList =
      if ' ' ∈ element.toList then '(' :: (element.toList ++ [')', '[', ']'])
      else element.toList ++ ['[', ']'] := by
  unfold arrayText
  split <;> simp_all

/-- The types of annotations that have no parts. -/
def plainTypes : List String :=
  ["any", "void", "null", "string", "number", "boolean", "Buffer", "Date",
    "mongoose.Types.Decimal128", "mongoose.Types.ObjectId", "Map<string, any>"]

/-- A property of texts that the type of an annotation has when the types of its parts have it. -/
structure Composes (P : String → Prop) : Prop where
  plain : ∀ s ∈ plainTypes, P s
  union : ∀ texts, texts ≠ [] → (∀ s ∈ texts, P s) → P (" | ".intercalate texts)
  array : ∀ element, P element → P (arrayText element)
  tuple : ∀ texts, (∀ s ∈ texts, P s) → P ("[" ++ ", ".intercalate texts ++ "]")
  dictionary : ∀ value, P value → P (dictionaryText value)
  promise : ∀ result, P result → P (promiseText result)

namespace Composes

open TypeHint TypeObject

variable {P : String → Prop} {N : String → Prop} {L : List LiteralValue → Prop}

/-- The type of anything. -/
theorem any (hP : Composes P) : P "any" :=
  hP.plain "any" (by decide)

/-- The array of anything. -/
theorem any_array : arrayText "any" = "any[]" := by
  simp [arrayText]

/-- The first of equal members stays in a union. -/
theorem unionText (hP : Composes P) {texts : List String} (hne : texts ≠ [])
    (h : ∀ s ∈ texts, P s) : P (unionText texts) := by
  rw [SchemaTypings.unionText, distinctTexts_eq]
  exact hP.union _ (eraseDups_ne_nil hne) fun s hs => h s (List.mem_eraseDups.mp hs)

/-- A container with arguments. -/
theorem containerTyping (hP : Composes P) (c : Container) (isVariadic : Bool) {texts : List String}
    (h : ∀ s ∈ texts, P s) : P (containerTyping c isVariadic texts) := by
  have hhead : P (texts.headD "any") := by
    cases texts with
    | nil => exact hP.any
    | cons s texts => exact h s (by simp)
  cases c with
  | sequence => exact hP.array _ hhead
  | tuple =>
    cases isVariadic with
    | true => exact hP.array _ hhead
    | false => exact hP.tuple texts h
  | mapping =>
    rcases texts with _ | ⟨s, _ | ⟨t, _ | ⟨u, texts⟩⟩⟩
    · exact hP.dictionary _ hP.any
    · exact hP.dictionary _ hP.any
    · exact hP.dictionary t (h t (by simp))
    · exact hP.dictionary _ hP.any
  | awaitable =>
    refine hP.promise _ ?_
    rw [List.getLastD_eq_getLast?]
    cases hlast : texts.getLast? with
    | none => exact hP.any
    | some s => exact h s (List.mem_of_getLast? hlast)

/-- The type of a scalar class is plain. -/
theorem mem_plainTypes_of_scalar {t : TypeObject} {s : String} (h : scalarTyping? t = some s) :
    s ∈ plainTypes := by
  unfold scalarTyping? at h
  split at h <;> first | contradiction | (obtain rfl := Option.some.inj h; decide)

/-- The type of a native tag is plain. -/
theorem tagTyping_mem_plainTypes (t : Tag) : tagTyping t ∈ plainTypes := by
  cases t <;> decide

/-- A class or name without arguments. -/
theorem typeTyping (hP : Composes P) (t : TypeObject) : P (typeTyping t) := by
  unfold TypeHint.typeTyping
  split
  · split
    · exact hP.containerTyping _ false (by simp)
    · exact hP.any
  · split
    · rename_i s hs
      exact hP.plain s (mem_plainTypes_of_scalar hs)
    · split
      · exact any_array ▸ hP.array "any" hP.any
      · exact any_array ▸ hP.array "any" hP.any
      · exact hP.dictionary "any" hP.any
      · cases Tag.ofType? t with
        | none => exact hP.any
        | some tag => exact hP.plain _ (tagTyping_mem_plainTypes tag)

mutual
/-- The type of an annotation, built from the types of its parts. -/
theorem typing (hP : Composes P) (hN : ∀ s, N s → P (textTyping s))
    (hL : ∀ values, L values → P (SchemaTypings.unionText (values.map literalTyping)))
    {a : TypeHint} (h : a.Every N L) (isResult : Bool) : P (a.typing isResult) := by
  have hnothing : P (if isResult then "void" else "null") := by
    cases isResult <;> exact hP.plain _ (by decide)
  cases a with
  | nothing => exact hnothing
  | text s => exact hN s h
  | forward s => exact hN s h
  | constant => exact hP.any
  | type t =>
    rw [TypeHint.typing]
    split
    · exact hnothing
    · exact hP.typeTyping t
  | generic head arguments =>
    rw [TypeHint.typing]
    split
    · exact hP.promise _ (lastTyping hP hN hL h)
    · exact hP.containerTyping _ _ (typings hP hN hL h)
    · exact hP.any
  | function => exact hP.any
  | union spelling members =>
    refine hP.unionText (fun hnil => h.1 ?_) (typings hP hN hL h.2)
    cases members with
    | nil => rfl
    | cons a rest => exact absurd hnil (List.cons_ne_nil _ _)
  | literal values => exact hL values h
  | annotated inner => exact typing hP hN hL (a := inner) h isResult
  | «alias» target => exact typing hP hN hL (a := target) h isResult

theorem typings (hP : Composes P) (hN : ∀ s, N s → P (textTyping s))
    (hL : ∀ values, L values → P (SchemaTypings.unionText (values.map literalTyping)))
    {as : List TypeHint} (h : EveryAll N L as) : ∀ s ∈ TypeHint.typings as, P s := by
  cases as with
  | nil => exact fun s hs => absurd hs List.not_mem_nil
  | cons a rest =>
    intro s hs
    rcases List.mem_cons.mp hs with rfl | hs
    · exact typing hP hN hL h.1 false
    · exact typings hP hN hL h.2 s hs

theorem lastTyping (hP : Composes P) (hN : ∀ s, N s → P (textTyping s))
    (hL : ∀ values, L values → P (SchemaTypings.unionText (values.map literalTyping)))
    {as : List TypeHint} (h : EveryAll N L as) : P (TypeHint.lastTyping as) := by
  cases as with
  | nil => exact hP.any
  | cons a rest =>
    cases rest with
    | nil => exact typing hP hN hL h.1 true
    | cons b rest =>
      have hrest : P (TypeHint.lastTyping (b :: rest)) := lastTyping hP hN hL h.2
      exact hrest
end

end Composes

end SchemaTypings
