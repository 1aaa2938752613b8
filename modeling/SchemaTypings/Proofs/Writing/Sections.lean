import SchemaTypings.Writer

/-!
# What a writer writes

Blocks nest, and the place where a writer writes is determined by those that are open: the innermost
one that turned to a section gives the section, and the indented ones inside it the indentation
(`Scope.ofBlocks`). A block gives back the place of its start however it is left, so steps of any
nesting make the same calls on the unit as a trace of them says, each at the place of its blocks
(`Step.perform_run`), and `perform_runAll_render` gives the text that comes of it.
-/

namespace SchemaTypings

namespace Writing

/-! ## Runs -/

section Perform

variable {ε α β : Type} (x : Writing ε α) (w : Writer)

@[simp] theorem perform_pure (a : α) : (pure a : Writing ε α).perform w = (.ok a, w) := rfl

@[simp] theorem perform_throw (e : ε) : (throw e : Writing ε α).perform w = (.error e, w) := rfl

@[simp] theorem perform_modify (f : Writer → Writer) :
    (modify f : Writing ε Unit).perform w = (.ok (), f w) := rfl

@[simp] theorem perform_render :
    (render : Writing ε String).perform w = (.ok w.unit.render, w) := rfl

theorem perform_bind (f : α → Writing ε β) :
    (x >>= f).perform w = match x.perform w with
      | (.ok a, w') => (f a).perform w'
      | (.error e, w') => (.error e, w') := by
  simp only [perform, ExceptT.run_bind, StateT.run_bind]
  rcases x.run.run w with ⟨_ | _, _⟩ <;> rfl

/-- What is done at the end is done on any end. -/
theorem perform_tryFinally (restore : Writer → Writer) :
    (tryFinally x (modify restore)).perform w = ((x.perform w).1, restore (x.perform w).2) := by
  rw [show x.perform w = (x w : Except ε α × Writer) from rfl]
  simp only [perform, tryFinally, tryFinally', ExceptT.run, StateT.run, Functor.map, ExceptT.map,
    ExceptT.mk, bind, StateT.bind]
  rcases (x w : Except ε α × Writer) with ⟨_ | _, _⟩ <;> rfl

theorem perform_tryCatch (handle : ε → Writing ε α) :
    (tryCatch x handle).perform w = match x.perform w with
      | (.ok a, w') => (.ok a, w')
      | (.error e, w') => (handle e).perform w' := by
  rw [show x.perform w = (x w : Except ε α × Writer) from rfl]
  simp only [perform, tryCatch, tryCatchThe, MonadExceptOf.tryCatch, ExceptT.tryCatch, ExceptT.run,
    StateT.run, ExceptT.mk, bind, StateT.bind]
  rcases (x w : Except ε α × Writer) with ⟨_ | _, _⟩ <;> rfl

/-- An indented block is run with one more level. -/
theorem perform_indented :
    (indented x).perform w =
      let (result, w') := x.perform { w with indentLevel := w.indentLevel + 1 }
      (result, { w' with indentLevel := w'.indentLevel - 1 }) := by
  rw [indented, perform_bind, perform_modify]
  exact perform_tryFinally ..

/-- A block that turns to a section is run at the margin of the section. -/
theorem perform_codeSection (s : Section) :
    (codeSection s x).perform w =
      let (result, w') := x.perform { w with current := s, buffer := s, indentLevel := 0 }
      (result, { w' with
        current := w.current, buffer := w.current, indentLevel := w.indentLevel }) :=
  perform_tryFinally ..

/-- Import lines are added one after the other. -/
theorem perform_addImports (lines : List String) :
    (addImports lines : Writing ε Unit).perform w =
      (.ok (), { w with unit := w.unit.addImports lines }) := by
  induction lines generalizing w with
  | nil => rfl
  | cons line lines ih =>
    rw [show (addImports (line :: lines) : Writing ε Unit) = do addImport line; addImports lines
      from rfl, perform_bind]
    exact ih { w with unit := w.unit.addImport line }

end Perform

/-! ## Steps -/

/-- A block. -/
inductive Block
  | indented
  | turned (s : Section)
  deriving DecidableEq, Repr

/-- A call by which something is added to a unit. -/
inductive Call
  | write (text : String)
  | writeBreak (size : Int)
  | addImport (line : String)
  | addImports (lines : List String)
  deriving DecidableEq, Repr

/-- A step of working with a writer, with everything that is nested in it. -/
inductive Step
  | call (c : Call)
  | within (b : Block) (steps : List Step)
  /-- An exception is raised. It carries the text of the unit at this moment. -/
  | fail
  /-- An exception from one of the steps ends here. -/
  | attempt (steps : List Step)

/-- What is done in a block. -/
def Block.run : Block → Writing String Unit → Writing String Unit
  | .indented => Writing.indented
  | .turned s => Writing.codeSection s

/-- Makes a call. -/
def Call.run : Call → Writing String Unit
  | .write text => Writing.write text
  | .writeBreak size => Writing.writeBreak size
  | .addImport line => Writing.addImport line
  | .addImports lines => Writing.addImports lines

mutual
/-- Takes a step. -/
def Step.run : Step → Writing String Unit
  | .call c => c.run
  | .within b steps => b.run (runAll steps)
  | .fail => do throw (← render)
  | .attempt steps => tryCatch (runAll steps) fun _ => pure ()
  termination_by structural s => s

/-- Takes some steps, until one fails. -/
def runAll : List Step → Writing String Unit
  | [] => pure ()
  | s :: rest => do
    s.run
    runAll rest
  termination_by structural steps => steps
end

/-! ## Traces -/

/-- The calls that are made, each with the blocks that are open there, the innermost first. -/
structure Trace where
  calls : List (List Block × Call)
  /-- Whether no exception is left. -/
  isDone : Bool

/-- What follows is only done when no exception is left. -/
def Trace.andThen (t u : Trace) : Trace :=
  if t.isDone then ⟨t.calls ++ u.calls, u.isDone⟩ else t

mutual
/-- The calls of a step inside some blocks. -/
def Step.trace (blocks : List Block) : Step → Trace
  | .call c => ⟨[(blocks, c)], true⟩
  | .within b steps => traceAll (b :: blocks) steps
  | .fail => ⟨[], false⟩
  | .attempt steps => ⟨(traceAll blocks steps).calls, true⟩
  termination_by structural s => s

/-- The calls of some steps inside some blocks. -/
def traceAll (blocks : List Block) : List Step → Trace
  | [] => ⟨[], true⟩
  | s :: rest => (s.trace blocks).andThen (traceAll blocks rest)
  termination_by structural steps => steps
end

/-- The section that a block turns to. -/
def Block.section? : Block → Option Section
  | .indented => none
  | .turned s => some s

/-- The section of the innermost block that turned to one. -/
def currentSection (blocks : List Block) : Section :=
  (blocks.findSome? Block.section?).getD .main

/-- How many indented blocks are open inside the innermost block that turned to a section. -/
def indentation (blocks : List Block) : Nat :=
  (blocks.takeWhile (· = .indented)).length

end Writing

/-- The place inside some blocks. -/
def Scope.ofBlocks (blocks : List Writing.Block) : Scope :=
  ⟨Writing.currentSection blocks, Writing.indentation blocks⟩

theorem Scope.ofBlocks_indented (blocks : List Writing.Block) :
    ofBlocks (.indented :: blocks) = (ofBlocks blocks).indented := by
  simp [ofBlocks, Scope.indented, Writing.currentSection, Writing.indentation,
    List.findSome?_cons, Writing.Block.section?]

theorem Scope.ofBlocks_turned (s : Section) (blocks : List Writing.Block) :
    ofBlocks (.turned s :: blocks) = (ofBlocks blocks).turnTo s := by
  simp [ofBlocks, Scope.turnTo, Writing.currentSection, Writing.indentation,
    List.findSome?_cons, Writing.Block.section?]

namespace Writing

/-- A writer writes at a place. -/
structure IsAt (w : Writer) (place : Scope) : Prop where
  current : w.current = place.current
  buffer : w.buffer = place.current
  indentLevel : w.indentLevel = place.indentLevel

/-- The unit after a call that was made at a place. -/
def Call.apply (place : Scope) (u : SourceUnit) : Call → SourceUnit
  | .write text => u.write place text
  | .writeBreak size => u.writeBreak place size.toNat
  | .addImport line => u.addImport line
  | .addImports lines => u.addImports lines

/-- The unit after some calls, each at the place of its blocks. -/
def applyCalls (u : SourceUnit) (calls : List (List Block × Call)) : SourceUnit :=
  calls.foldl (fun u c => c.2.apply (.ofBlocks c.1) u) u

/-- What is left when the calls of a trace were made: the place is the one from before. -/
def Trace.outcome (t : Trace) (w : Writer) : Except String Unit × Writer :=
  let u := applyCalls w.unit t.calls
  (if t.isDone then .ok () else .error u.render, { w with unit := u })

/-- A call is made at the place of the writer. -/
theorem Call.perform_run (c : Call) {blocks : List Block} {w : Writer}
    (h : IsAt w (.ofBlocks blocks)) : c.run.perform w = Trace.outcome ⟨[(blocks, c)], true⟩ w := by
  obtain ⟨unit, current, buffer, indentLevel⟩ := w
  obtain ⟨rfl, rfl, rfl⟩ := h
  cases c with
  | addImports lines => exact perform_addImports _ lines
  | _ => rfl

/-- A block is run at its place, and the place from before is given back. -/
theorem Block.perform_run (b : Block) {blocks : List Block} {x : Writing String Unit} {t : Trace}
    {w : Writer} (h : IsAt w (.ofBlocks blocks))
    (hx : ∀ w', IsAt w' (.ofBlocks (b :: blocks)) → x.perform w' = t.outcome w') :
    (b.run x).perform w = t.outcome w := by
  obtain ⟨unit, current, buffer, indentLevel⟩ := w
  obtain ⟨rfl, rfl, rfl⟩ := h
  cases b with
  | indented =>
    rw [Block.run, perform_indented, hx _ (by rw [Scope.ofBlocks_indented]; exact ⟨rfl, rfl, rfl⟩)]
    rfl
  | turned s =>
    rw [Block.run, perform_codeSection, hx _ (by rw [Scope.ofBlocks_turned]; exact ⟨rfl, rfl, rfl⟩)]
    rfl

/-- What follows is done on the unit that was left. -/
theorem Trace.outcome_andThen {t u : Trace} {x y : Writing String Unit} {w : Writer}
    (hx : x.perform w = t.outcome w)
    (hy : ∀ unit, y.perform { w with unit } = u.outcome { w with unit }) :
    (do x; y).perform w = (t.andThen u).outcome w := by
  rw [perform_bind, hx]
  cases h : t.isDone with
  | true => simp [andThen, outcome, h, hy, applyCalls]
  | false => simp [andThen, outcome, h]

mutual
/-- A step makes the calls of its trace and leaves the place as it was. -/
theorem Step.perform_run (s : Step) {blocks : List Block} {w : Writer}
    (h : IsAt w (.ofBlocks blocks)) : s.run.perform w = (s.trace blocks).outcome w := by
  cases s with
  | call c => exact c.perform_run h
  | within b steps => exact b.perform_run h fun w' h' => perform_runAll steps h'
  | fail => rfl
  | attempt steps =>
    rw [Step.run, perform_tryCatch, perform_runAll steps h]
    cases hdone : (traceAll blocks steps).isDone <;> simp [Trace.outcome, hdone, Step.trace]

/-- Some steps make the calls of their trace and leave the place as it was. -/
theorem perform_runAll (steps : List Step) {blocks : List Block} {w : Writer}
    (h : IsAt w (.ofBlocks blocks)) :
    (runAll steps).perform w = (traceAll blocks steps).outcome w := by
  cases steps with
  | nil => rfl
  | cons s rest =>
    exact Trace.outcome_andThen (s.perform_run h) fun unit => perform_runAll rest ⟨h.1, h.2, h.3⟩
end

/-! ## Texts -/

/-- A text with two blanks for every level in front of each line that is not blank. -/
def indentedText (level : Nat) (text : String) : String :=
  String.ofList ((Text.lines text.toList).flatMap fun line =>
    if line.all Text.isBlank then line else List.replicate (2 * level) ' ' ++ line)

/-- The chunks that a call adds, when some indented blocks are open. -/
def Call.chunks (level : Nat) : Call → List String
  | .write text => [indentedText level text]
  | .writeBreak size => List.replicate size.toNat ""
  | .addImport _ | .addImports _ => []

/-- The import lines that a call gives. -/
def Call.lines : Call → List String
  | .write _ | .writeBreak _ => []
  | .addImport line => [line]
  | .addImports lines => lines

/-- The chunks that some calls add to a section. -/
def chunksIn (s : Section) (calls : List (List Block × Call)) : List String :=
  (calls.filter fun c => currentSection c.1 = s).flatMap fun c => c.2.chunks (indentation c.1)

/-- The import lines that some calls give, each where it is given first. -/
def importLines (calls : List (List Block × Call)) : List String :=
  (calls.flatMap fun c => c.2.lines).eraseDups

end Writing

namespace SourceUnit

variable (u : SourceUnit)

theorem chunks_append (target s : Section) (new : List String) :
    (u.append target new).chunks s = u.chunks s ++ if target = s then new else [] := by
  cases target <;> cases s <;> simp [append, chunks]

@[simp] theorem preamble_append (target : Section) (new : List String) :
    (u.append target new).preamble = u.preamble := by
  cases target <;> rfl

@[simp] theorem imports_append (target : Section) (new : List String) :
    (u.append target new).imports = u.imports := by
  cases target <;> rfl

/-- An import line changes the imports alone. -/
theorem addImport_eq (line : String) :
    u.addImport line = { u with imports := (u.addImport line).imports } := by
  rw [addImport]
  split <;> rfl

theorem addImports_eq (lines : List String) :
    u.addImports lines = { u with imports := (u.addImports lines).imports } := by
  induction lines generalizing u with
  | nil => rfl
  | cons line lines ih =>
    rw [addImports, List.foldl_cons, ← addImports, ih, addImport_eq]

/-- An import line is added when it is new. -/
theorem imports_addImport {given : List String} (h : u.imports = given.eraseDups) (line : String) :
    (u.addImport line).imports = (given ++ [line]).eraseDups := by
  rw [List.eraseDups_append, addImport, h, List.removeAll]
  by_cases hline : line ∈ given <;> simp [hline, h, List.eraseDups_cons]

theorem imports_addImports {given : List String} (h : u.imports = given.eraseDups)
    (lines : List String) : (u.addImports lines).imports = (given ++ lines).eraseDups := by
  induction lines generalizing u given with
  | nil => rw [List.append_nil, ← h, addImports, List.foldl_nil]
  | cons line lines ih =>
    rw [addImports, List.foldl_cons, ← addImports, ih _ (u.imports_addImport h line),
      List.append_assoc, List.singleton_append]

end SourceUnit

namespace Writing

/-! ## The unit that calls make -/

variable (c : Call) (place : Scope) (u : SourceUnit)

theorem Call.preamble_apply : (c.apply place u).preamble = u.preamble := by
  cases c with
  | write text => simp [apply, SourceUnit.write]
  | writeBreak size => simp [apply, SourceUnit.writeBreak]
  | addImport line => rw [apply, SourceUnit.addImport_eq]
  | addImports lines => rw [apply, SourceUnit.addImports_eq]

/-- A call adds its chunks to the section of its place. -/
theorem Call.chunks_apply (s : Section) :
    (c.apply place u).chunks s =
      u.chunks s ++ if place.current = s then c.chunks place.indentLevel else [] := by
  have hlines : ∀ imports, ({ u with imports } : SourceUnit).chunks s = u.chunks s := by
    intro imports
    cases s <;> rfl
  cases c with
  | write text =>
    rw [apply, SourceUnit.write, SourceUnit.chunks_append, chunks, indentedText, Text.indent,
      Text.indentChars, String.toList_ofList]
  | writeBreak size => exact u.chunks_append ..
  | addImport line =>
    rw [apply, SourceUnit.addImport_eq, hlines]
    simp [chunks]
  | addImports lines =>
    rw [apply, SourceUnit.addImports_eq, hlines]
    simp [chunks]

/-- A call adds those of its import lines that are new. -/
theorem Call.imports_apply {given : List String} (h : u.imports = given.eraseDups) :
    (c.apply place u).imports = (given ++ c.lines).eraseDups := by
  cases c with
  | write text => simp [apply, SourceUnit.write, lines, h]
  | writeBreak size => simp [apply, SourceUnit.writeBreak, lines, h]
  | addImport line => exact u.imports_addImport h line
  | addImports added => exact u.imports_addImports h added

variable (calls : List (List Block × Call))

theorem preamble_applyCalls : (applyCalls u calls).preamble = u.preamble := by
  induction calls generalizing u with
  | nil => rfl
  | cons c calls ih => rw [applyCalls, List.foldl_cons, ← applyCalls, ih, Call.preamble_apply]

/-- Calls add their chunks in order. -/
theorem chunks_applyCalls (s : Section) :
    (applyCalls u calls).chunks s = u.chunks s ++ chunksIn s calls := by
  induction calls generalizing u with
  | nil => simp [applyCalls, chunksIn]
  | cons c calls ih =>
    rw [applyCalls, List.foldl_cons, ← applyCalls, ih, Call.chunks_apply, List.append_assoc]
    by_cases h : currentSection c.1 = s <;> simp [Scope.ofBlocks, chunksIn, h]

theorem imports_applyCalls {given : List String} (h : u.imports = given.eraseDups) :
    (applyCalls u calls).imports = (given ++ calls.flatMap fun c => c.2.lines).eraseDups := by
  induction calls generalizing u given with
  | nil => simpa [applyCalls] using h
  | cons c calls ih =>
    rw [applyCalls, List.foldl_cons, ← applyCalls, ih _ (c.2.imports_apply _ u h),
      List.flatMap_cons, List.append_assoc]

/-- The text of a unit after some calls. -/
theorem render_applyCalls (preamble : String) :
    (applyCalls (.empty preamble) calls).render =
      let imports := "\n".intercalate (importLines calls)
      let sections := [Section.main, .epilogue].filter fun s => chunksIn s calls ≠ []
      "\n\n".intercalate (preamble :: (if imports = "" then [] else [imports]) ++
        sections.map fun s => "\n".intercalate (chunksIn s calls)) ++ "\n" := by
  have hpreamble : (applyCalls (.empty preamble) calls).preamble = preamble :=
    preamble_applyCalls ..
  have himports : (applyCalls (.empty preamble) calls).imports = importLines calls :=
    imports_applyCalls (.empty preamble) calls (show _ = List.eraseDups [] from rfl)
  have hchunks : ∀ s, (applyCalls (.empty preamble) calls).chunks s = chunksIn s calls := by
    intro s
    rw [chunks_applyCalls]
    cases s <;> rfl
  have hcontent : (applyCalls (.empty preamble) calls).hasContent =
      fun s => decide (chunksIn s calls ≠ []) := by
    funext s
    rw [SourceUnit.hasContent, hchunks]
    cases chunksIn s calls <;> rfl
  simp only [SourceUnit.render, hpreamble, himports, hchunks, hcontent, String.isEmpty_iff]

/-- The text that comes of some steps: the preamble, the import lines in the order in which they
were given first, unless they make up no text, and each section that chunks were added to. A chunk
is added to the section of the innermost block that turned to one, and the lines of its text are
indented by the indented blocks inside that one. The parts stand with an empty line between them.
An exception ends the steps and carries the text from the place where it was raised, which is the
same, and all blocks are left in the end. -/
theorem perform_runAll_render (preamble : String) (steps : List Step) :
    let calls := (traceAll [] steps).calls
    let imports := "\n".intercalate (importLines calls)
    let sections := [Section.main, .epilogue].filter fun s => chunksIn s calls ≠ []
    let text := "\n\n".intercalate (preamble :: (if imports = "" then [] else [imports]) ++
      sections.map fun s => "\n".intercalate (chunksIn s calls)) ++ "\n"
    ∃ unit : SourceUnit, unit.render = text ∧
      (runAll steps).perform (.start preamble) =
        (if (traceAll [] steps).isDone then .ok () else .error text, ⟨unit, .main, .main, 0⟩) := by
  have hrender := render_applyCalls (traceAll [] steps).calls preamble
  refine ⟨_, hrender, ?_⟩
  have hstart : IsAt (.start preamble) (.ofBlocks []) := ⟨rfl, rfl, rfl⟩
  rw [perform_runAll steps hstart, Trace.outcome, ← hrender]
  rfl

/-- A block that is left by an exception leaves its text, and the next text is written where it
would have been without the block. -/
example :
    ((runAll [.call (.addImports ["import a;", "import a;"]),
      .attempt [.within (.turned .epilogue) [.within .indented [.call (.write "b\n\nc"), .fail]]],
      .call (.write "d")]).perform (.start "// e")).2.unit.render =
        "// e\n\nimport a;\n\nd\n\n  b\n\n  c\n" := by
  decide

end Writing

end SchemaTypings
