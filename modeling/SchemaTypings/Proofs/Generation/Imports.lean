import SchemaTypings.Proofs.Generation.Augmented

/-!
# Import lines

The import lines that are asked for stand behind the import of every declaration file. When each of
them is read and says nothing, as an import or a comment does, the file is read and says what its
models say (`exists_file_of_imports`). The lines are in its text as they are
(`mem_textOfImports`).
-/

namespace SchemaTypings

open Declaration

/-- What is in a line is in the lines. -/
theorem mem_intercalate_of_mem {lines : List String} {line : String} (h : line ∈ lines) {c : Char}
    (hc : c ∈ line.toList) : c ∈ ("\n".intercalate lines).toList := by
  induction lines with
  | nil => exact nomatch h
  | cons first lines ih =>
    cases lines with
    | nil =>
      obtain rfl := List.mem_singleton.mp h
      simpa using hc
    | cons next lines =>
      rw [String.intercalate_cons_cons, String.toList_append, String.toList_append]
      rcases List.mem_cons.mp h with rfl | hrest
      · exact List.mem_append_left _ (List.mem_append_left _ hc)
      · exact List.mem_append_right _ (ih hrest)

/-- What is in an import line is in the text. -/
theorem mem_textOfImports {imports : List String} {line : String} (h : line ∈ imports) {c : Char}
    (hc : c ∈ line.toList) (parts : List String) : c ∈ (textOfImports imports parts).toList := by
  have hlines := mem_intercalate_of_mem (mem_importLines.mpr (.inr h)) hc
  simp only [textOfImports, spaced_cons, String.toList_append, List.mem_append]
  exact .inl (.inr (.inl (.inr hlines)))

/-- Models that can be written are generated with import lines that say nothing: these are in the
text, and the file says what the models say. -/
theorem exists_file_of_imports {schemas : List (String × Schema)} {imports : List String}
    (hne : schemas ≠ []) (hwritable : AllWritable IsQuotable schemas)
    (hreadable : ∀ entry ∈ schemas, entry.2.IsReadable)
    (himports : ∀ line ∈ imports, IsStatements line.toList []) :
    ∃ file chunks, itemChunks schemas = .ok chunks ∧
      generateTypes schemas ⟨false, imports⟩ = .ok file ∧
      file.fullText = textOfImports imports (chunks.map (chunkText false)) ∧
      file.outline = chunks.flatten.flatMap (·.outlines false) := by
  obtain ⟨chunks, hchunks⟩ := (exists_itemChunks_iff hwritable).mpr hreadable
  have hreads := hwritable.reads (fun _ h => h) hchunks
  have hwhole := isStatements_textOfImports himports (isStatements_chunks false hreads)
  obtain ⟨file, hfile, -, houtline⟩ := hwhole.exists_file
  refine ⟨file, chunks, hchunks, ?_, fullText_of_ofText hfile, houtline⟩
  rw [generateTypes, declarationText_eq_imports false hne, modelTexts_eq false hwritable.ne_empty,
    hchunks]
  simp [Except.map, Except.mapError, bind, Except.bind, hfile]

end SchemaTypings
