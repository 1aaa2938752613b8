import SchemaTypings.Proofs.Generation.Writable

/-!
# Augmentations

In an augmentation the declarations of the models are the same, but stand in one module block: they
are not exported, and the interface that gives queries their helpers has no module block of its own
(`generateTypes_augmented`). The lines are indented, which no token shows.
-/

namespace SchemaTypings

open Declaration

/-- The tokens that open a module block of the module. -/
def moduleOpening : List (Kind × String) :=
  [(.declareWord, "declare"), (.moduleWord, "module"), (.string, "\"mongoose\""), (.leftBrace, "\x7b")]

/-- The token that closes it. -/
def moduleClosing : List (Kind × String) :=
  [(.rightBrace, "\x7d")]

theorem lexemes_augmentationHeader : lexemes Docs.augmentationHeader = moduleOpening := by
  decide

theorem lexemes_augmentationFooter : lexemes Docs.augmentationFooter = moduleClosing := by
  decide

namespace Item

/-- The tokens of a declaration. -/
def bare (i : Item) : List (Kind × String) :=
  Declaration.lexemes i.text

/-- The tokens of a declaration that stands in no module block: it is exported, and the interface of
query helpers has a module block of its own. -/
def wrapped (i : Item) : List (Kind × String) :=
  match i with
  | .declared .. => (.exportWord, "export") :: i.bare
  | .helpers _ => moduleOpening ++ i.bare ++ moduleClosing

theorem lexemes_eq_bare (i : Item) : i.lexemes true = i.bare := by
  cases i <;> rfl

theorem lexemes_eq_wrapped (i : Item) : i.lexemes false = i.wrapped := by
  cases i with
  | declared docs name text out => rfl
  | helpers model =>
    rw [Item.lexemes, lexemes_augmentationHeader, lexemes_augmentationFooter]
    rfl

/-- What is read as it was meant is one declaration. -/
theorem Reads.isDeclaration {i : Item} (h : i.Reads) : ∃ out, IsDeclaration i.text.toList out := by
  cases i with
  | declared docs name text out => exact ⟨out, h.2⟩
  | helpers model => exact ⟨_, isDeclaration_helpers h⟩

end Item

/-- A file that was just read has the text that was read. -/
theorem fullText_of_ofText {text : String} {file : SourceFile}
    (h : SourceFile.ofText text = .ok file) : file.fullText = text := by
  unfold SourceFile.ofText at h
  cases hparse : parse text with
  | error e => simp [hparse, Except.map] at h
  | ok statements =>
    obtain rfl : ⟨text, [], statements⟩ = file := by simpa [hparse, Except.map] using h
    simp [SourceFile.fullText, applyEdits]

/-- What is generated for the same models in a file of its own and in an augmentation: files with the
tokens of the same declarations, wrapped one by one or all together. -/
structure WrapAlike (schemas : List (String × Schema)) (items : List Item)
    (plain augmented : SourceFile) : Prop where
  items_eq : (itemChunks schemas).map List.flatten = .ok items
  isDeclaration : ∀ i ∈ items, ∃ out, IsDeclaration i.text.toList out
  plain_eq : generateTypes schemas ⟨false, []⟩ = .ok plain
  augmented_eq : generateTypes schemas ⟨true, []⟩ = .ok augmented
  lexemes_plain : lexemes plain.fullText = lexemes Docs.mongooseImport ++ items.flatMap Item.wrapped
  lexemes_augmented : lexemes augmented.fullText =
    lexemes Docs.mongooseImport ++ (moduleOpening ++ items.flatMap Item.bare ++ moduleClosing)

/-- Augmenting changes nothing but the wrapping of the declarations: when all options are readable,
both files are generated and have the tokens of the same declarations; otherwise neither is, and for
the same reason. -/
theorem generateTypes_augmented {schemas : List (String × Schema)} (hne : schemas ≠ [])
    (hwritable : AllWritable IsInline schemas) :
    ((∀ entry ∈ schemas, entry.2.IsReadable) →
      ∃ items plain augmented, WrapAlike schemas items plain augmented) ∧
    (¬ (∀ entry ∈ schemas, entry.2.IsReadable) →
      ∃ e, ∀ isAugmented, generateTypes schemas ⟨isAugmented, []⟩ = .error e) := by
  have hnames := hwritable.ne_empty
  rw [← exists_itemChunks_iff hwritable]
  constructor
  · -- the same chunks are wrapped in two ways
    rintro ⟨chunks, hchunks⟩
    have hreads := hwritable.reads (fun _ h => h.isQuotable) hchunks
    have hlined := hwritable.isLined (fun _ h => h) hchunks
    obtain ⟨plain, hplain, -⟩ := exists_file_plain hreads
    obtain ⟨hlexemes, augmented, haugmented, -⟩ := exists_file_augmented hreads hlined
    have hgenerated : ∀ isAugmented file,
        SourceFile.ofText (fileText isAugmented chunks) = .ok file →
        generateTypes schemas ⟨isAugmented, []⟩ = .ok file := by
      intro isAugmented file hfile
      rw [generateTypes_eq isAugmented hne hnames, hchunks]
      simp only [Except.mapError, Except.bind, hfile]
    refine ⟨chunks.flatten, plain, augmented, by rw [hchunks]; rfl, ?_, hgenerated _ _ hplain,
      hgenerated _ _ haugmented, ?_, ?_⟩
    · intro i hi
      obtain ⟨chunk, hchunk, hmem⟩ := List.mem_flatten.mp hi
      exact (hreads chunk hchunk i hmem).isDeclaration
    · rw [fullText_of_ofText hplain, lexemes_plain hreads]
      simp only [Item.lexemes_eq_wrapped]
    · rw [fullText_of_ofText haugmented, hlexemes, lexemes_augmentationHeader,
        lexemes_augmentationFooter]
      simp only [Item.lexemes_eq_bare]
  · -- the chunks fail before they are wrapped
    intro hnot
    cases hchunks : itemChunks schemas with
    | ok chunks => exact absurd ⟨chunks, hchunks⟩ hnot
    | error e =>
      refine ⟨.schema e, fun isAugmented => ?_⟩
      rw [generateTypes_eq isAugmented hne hnames, hchunks]
      rfl

/-- The file of tickets is augmented. -/
theorem generateTypes_augmented_ticket :
    ∃ items plain augmented, WrapAlike [("Ticket", ticketSchema)] items plain augmented :=
  (generateTypes_augmented (List.cons_ne_nil _ _) allWritable_ticket).1
    (List.forall_mem_singleton.mpr isReadable_ticketSchema)

end SchemaTypings
