import TransferCost.Proofs.Journal

/-!
# What the exports of a run leave behind

A run that has its analysis exports it in up to four ways, one after the other.  Each export may
fail, and the tables of an analysis are two files, of which the second may fail alone.  This file
says what all of them together leave behind.

## 1.  Saved files

`Saves` is what has changed on a watched machine when some files were written, and nothing else
happened that a user can see.

## 2.  One export

An `Export` is its files with their texts.  What it saves, whether it succeeds and which files it
lists is a function of the tree in front of it (`Export.saved`, `Export.succeeds`,
`Export.listed`), and depends on the directories of that tree only.  `Export.Made` is what the
making of an export leaves behind: `writesOn_writeReported` and `makes_write` say that the programs
make theirs.

## 3.  All exports

`Carried` is what exports leave behind that are made one after the other, and
`Carried.append` is the reason why none of them is in the way of another: all of them are judged in
the tree in front of the first.  `Command.carried_exportAll` applies this to the exports of a run.
-/

namespace TransferCost

open Files (FileError FileTree exported)
open Files.FileTree (SameDirectories)

/-! ## 1.  Saved files -/

/-- From one machine to the other these files were written, and nothing was printed. -/
structure Saves (files : List (String × String)) (w w' : Watched) : Prop where
  written : w'.written = w.written ++ files
  files : w'.files = w.files.writeAll files
  output : w'.output = w.output
  clock : w'.clock = w.clock
  runId : w'.runId = w.runId

namespace Saves

variable {files files' : List (String × String)} {w w' w'' : Watched}

theorem refl (w : Watched) : Saves [] w w :=
  ⟨(List.append_nil _).symm, rfl, rfl, rfl, rfl⟩

theorem note (w : Watched) (file : String × String) : Saves [file] w (w.note file) :=
  ⟨rfl, rfl, rfl, rfl, rfl⟩

theorem trans (h : Saves files w w') (h' : Saves files' w' w'') :
    Saves (files ++ files') w w'' := by
  refine ⟨?_, ?_, h'.output.trans h.output, h'.clock.trans h.clock, h'.runId.trans h.runId⟩
  · rw [h'.written, h.written, List.append_assoc]
  · rw [h'.files, h.files, FileTree.writeAll_append]

theorem sameDirectories (h : Saves files w w') : SameDirectories w.files w'.files := by
  rw [h.files]
  exact FileTree.sameDirectories_writeAll _ _

end Saves

/-! ## 2.  One export -/

/-- Something that a run exports: the name that warnings have for it, its files with their texts,
and its failure if the file with some path cannot be written. -/
structure Export where
  what : String
  files : List (String × String)
  failure : String → FileError → Failure

namespace Export

variable (e : Export) {t t' : FileTree}

/-- The files that are written: those in front of the first that cannot be. -/
def saved (t : FileTree) : List (String × String) :=
  e.files.takeWhile fun f => t.admits f.1

/-- All files can be written. -/
def succeeds (t : FileTree) : Bool :=
  e.files.all fun f => t.admits f.1

/-- The paths that are listed: those of all files, or none. -/
def listed (t : FileTree) : List String :=
  if e.succeeds t then e.files.map (·.1) else []

/-- The failure of the export in a tree.  It names a file that cannot be written. -/
def IsFailure (t : FileTree) (failure : Failure) : Prop :=
  ∃ f ∈ e.files, t.admits f.1 = false ∧ ∃ cause, failure = e.failure f.1 cause

/-- The text of a warning about the export in a tree. -/
def IsWarning (t : FileTree) (text : String) : Prop :=
  ∃ failure, e.IsFailure t failure ∧
    text = s!"Warning: could not write {e.what}: {failure.message}\n"

/-! Trees with the same directories treat an export alike. -/

theorem saved_eq (h : SameDirectories t t') : e.saved t' = e.saved t := by
  unfold saved
  simp only [h.admits_eq]

theorem succeeds_eq (h : SameDirectories t t') : e.succeeds t' = e.succeeds t := by
  unfold succeeds
  simp only [h.admits_eq]

theorem listed_eq (h : SameDirectories t t') : e.listed t' = e.listed t := by
  unfold listed
  rw [e.succeeds_eq h]

theorem isWarning_iff (h : SameDirectories t t') {text : String} :
    e.IsWarning t' text ↔ e.IsWarning t text := by
  unfold IsWarning IsFailure
  simp only [h.admits_eq]

/-- What the making of an export leaves behind, and its result. -/
structure Made (e : Export) (w : Watched) (r : Except Failure (List String)) (w' : Watched) :
    Prop where
  saves : Saves (e.saved w.files) w w'
  errors : w'.errors = w.errors
  result : (e.succeeds w.files = true ∧ r = .ok (e.files.map (·.1))) ∨
    e.succeeds w.files = false ∧ ∃ failure, e.IsFailure w.files failure ∧ r = .error failure

namespace Made

variable {e : Export} {w w' : Watched} {r : Except Failure (List String)}
  {f : String × String} {rest : List (String × String)}

theorem nil (hfiles : e.files = []) (w : Watched) : e.Made w (.ok []) w := by
  have hsaved : e.saved w.files = [] := by
    rw [saved, hfiles]
    rfl
  refine ⟨?_, rfl, .inl ⟨?_, ?_⟩⟩
  · rw [hsaved]
    exact .refl w
  · rw [succeeds, hfiles]
    rfl
  · rw [hfiles]
    rfl

/-- A file that cannot be written ends the export. -/
theorem refused (hfiles : e.files = f :: rest) (hf : w.files.admits f.1 = false)
    (cause : FileError) : e.Made w (.error (e.failure f.1 cause)) w := by
  have hsaved : e.saved w.files = [] := by
    rw [saved, hfiles, List.takeWhile_cons_of_neg (by simp [hf])]
  refine ⟨?_, rfl, .inr ⟨?_, _, ⟨f, ?_, hf, cause, rfl⟩, rfl⟩⟩
  · rw [hsaved]
    exact .refl w
  · rw [succeeds, hfiles, List.all_cons, hf, Bool.false_and]
  · rw [hfiles]
    exact List.mem_cons_self

/-- A file that can be written is followed by the rest of the export. -/
theorem cons (hfiles : e.files = f :: rest) {w₁ : Watched} (hf : w.files.admits f.1 = true)
    (hsaves : Saves [f] w w₁) (herrors : w₁.errors = w.errors)
    (h : ({ e with files := rest } : Export).Made w₁ r w') :
    e.Made w ((f.1 :: ·) <$> r) w' := by
  have hsame := hsaves.sameDirectories
  have hsaved : e.saved w.files = [f] ++ ({ e with files := rest } : Export).saved w₁.files := by
    rw [saved_eq _ hsame, saved, hfiles, List.takeWhile_cons_of_pos (by exact hf)]
    rfl
  have hsucceeds : e.succeeds w.files = ({ e with files := rest } : Export).succeeds w₁.files := by
    rw [succeeds_eq _ hsame, succeeds, hfiles, List.all_cons, hf, Bool.true_and]
    rfl
  refine ⟨?_, h.errors.trans herrors, ?_⟩
  · rw [hsaved]
    exact hsaves.trans h.saves
  · rw [hsucceeds]
    rcases h.result with ⟨hok, rfl⟩ | ⟨hfail, failure, ⟨g, hg, hrefused, cause, rfl⟩, rfl⟩
    · refine .inl ⟨hok, ?_⟩
      rw [hfiles]
      rfl
    · refine .inr ⟨hfail, _, ⟨g, ?_, ?_, cause, rfl⟩, rfl⟩
      · rw [hfiles]
        exact List.mem_cons_of_mem _ hg
      · rwa [← hsame.admits_eq]

/-- Events do not matter. -/
theorem log (h : e.Made w r w') (logged : List Event) : e.Made w r { w' with logged } :=
  ⟨⟨h.saves.written, h.saves.files, h.saves.output, h.saves.clock, h.saves.runId⟩, h.errors,
    h.result⟩

end Made

/-! ### The programs -/

/-- An export of one file. -/
def single (what path text : String) : Export :=
  ⟨what, [(path, text)], .file⟩

section Programs

variable {w : Watched} {what path text : String}

/-- The program, on this machine, writes the one file of an export. -/
def WritesOn (w : Watched) (x : StateM Watched (Except Failure Unit)) (what path text : String) :
    Prop :=
  ∃ r w', x w = (r, w') ∧ (single what path text).Made w ((fun _ => [path]) <$> r) w'

theorem writesOn_writeText (w : Watched) (what path text : String) :
    WritesOn w (writeText path text) what path text := by
  cases hadmits : w.files.admits path with
  | false =>
    obtain ⟨cause, hwrite⟩ := Watched.writeFile_of_not_admits hadmits text
    have hmade : (single what path text).Made w (.error (.file path cause)) w :=
      .refused (f := (path, text)) rfl hadmits cause
    exact ⟨.error (.file path cause), w, Watched.bind_apply hwrite _, hmade⟩
  | true =>
    obtain ⟨l, hl⟩ := FileTree.admits_iff.mp hadmits
    have hwrite := Watched.writeFile_of_site hl text
    refine ⟨.ok (), _, Watched.bind_apply hwrite _, ?_⟩
    exact .cons (f := (path, text)) rfl hadmits (.note w _) rfl (.nil rfl _)

theorem writesOn_writeReported (w : Watched) (event : Event) (what path text : String) :
    WritesOn w (writeReported event path text) what path text := by
  obtain ⟨r, w', hwrite, hmade⟩ := writesOn_writeText w what path text
  cases r with
  | error failure => exact ⟨.error failure, w', Watched.bind_apply hwrite _, hmade⟩
  | ok done => exact ⟨.ok (), _, Watched.bind_apply hwrite _, hmade.log (event :: w'.logged)⟩

/-- The tables of an analysis in a directory. -/
def tables (directory : String) (ts : List (String × Table)) : Export where
  what := "chart data"
  files := ts.map fun (name, t) => (Files.join directory name, t.text)
  failure := fun _ cause => .table cause

theorem makes_writeEach (directory : String) (ts : List (String × Table)) (w : Watched) :
    ∃ r w', (Table.writeEach (ts.map fun (name, t) => (Files.join directory name, t)) :
        StateM Watched _) w = (r, w') ∧ (tables directory ts).Made w r w' := by
  induction ts generalizing w with
  | nil => exact ⟨.ok [], w, rfl, .nil rfl w⟩
  | cons entry rest ih =>
    obtain ⟨name, t⟩ := entry
    cases hadmits : w.files.admits (Files.join directory name) with
    | false =>
      obtain ⟨cause, hwrite⟩ := Watched.writeFile_of_not_admits hadmits t.text
      have hmade : (tables directory ((name, t) :: rest)).Made w (.error (.table cause)) w :=
        .refused (f := (Files.join directory name, t.text)) rfl hadmits cause
      exact ⟨.error (.table cause), w, Watched.bind_apply hwrite _, hmade⟩
    | true =>
      obtain ⟨l, hl⟩ := FileTree.admits_iff.mp hadmits
      have hwrite := Watched.writeFile_of_site hl t.text
      obtain ⟨r, w', hrest, hmade⟩ := ih (w.note (Files.join directory name, t.text))
      refine ⟨(Files.join directory name :: ·) <$> r, w', ?_, ?_⟩
      · refine (Watched.bind_apply hwrite _).trans ?_
        exact Watched.bind_apply hrest _
      · exact .cons (f := (Files.join directory name, t.text)) rfl hadmits (.note w _) rfl hmade

theorem makes_write (a : Analysis) (directory : String) (w : Watched) :
    ∃ r w', (Table.write a directory : StateM Watched _) w = (r, w') ∧
      (tables directory (Table.ofAnalysis a)).Made w r w' := by
  obtain ⟨r, w', hwrite, hmade⟩ := makes_writeEach directory (Table.ofAnalysis a) w
  cases r with
  | error failure => exact ⟨.error failure, w', Watched.bind_apply hwrite _, hmade⟩
  | ok paths =>
    exact ⟨.ok paths, _, Watched.bind_apply hwrite _, hmade.log (.tablesWritten paths :: w'.logged)⟩

end Programs

end Export

/-! ## 3.  All exports -/

/-- What is left behind by exports that are made one after the other, and the files that they list.
Each export that fails is warned about once. -/
structure Carried (es : List Export) (w w' : Watched) (created : List String) : Prop where
  saves : Saves (es.flatMap (·.saved w.files)) w w'
  created : created = es.flatMap (·.listed w.files)
  warned : ∃ warnings : List String,
    List.Forall₂ (fun e text => e.IsWarning w.files text)
      (es.filter fun e => !e.succeeds w.files) warnings ∧
    w'.errors = w.errors ++ String.join warnings

namespace Carried

variable {es es' : List Export} {w w' w'' : Watched} {created created' : List String}

theorem nil (w : Watched) : Carried [] w w [] :=
  ⟨.refl w, rfl, [], .nil, (String.append_empty).symm⟩

/-- **No export is in the way of a later one.** -/
theorem append (h : Carried es w w' created) (h' : Carried es' w' w'' created') :
    Carried (es ++ es') w w'' (created ++ created') := by
  have hsame := h.saves.sameDirectories
  obtain ⟨warnings, hall, herrors⟩ := h.warned
  obtain ⟨warnings', hall', herrors'⟩ := h'.warned
  have hsaves' := h'.saves
  have hcreated' := h'.created
  simp only [Export.saved_eq _ hsame] at hsaves'
  simp only [Export.listed_eq _ hsame] at hcreated'
  simp only [Export.succeeds_eq _ hsame, Export.isWarning_iff _ hsame] at hall'
  refine ⟨?_, ?_, warnings ++ warnings', ?_, ?_⟩
  · rw [List.flatMap_append]
    exact h.saves.trans hsaves'
  · rw [List.flatMap_append, h.created, hcreated']
  · rw [List.filter_append]
    exact List.rel_append hall hall'
  · rw [herrors', herrors, String.append_assoc, String.join_append]

/-- The end of one export: its files are listed, or its failure is warned about. -/
theorem of_made {e : Export} {r : Except Failure (List String)} (h : e.Made w r w') :
    ∃ created w'', (CommandLine.written e.what r : StateM Watched _) w' = (created, w'') ∧
      Carried [e] w w'' created := by
  have hsaves : Saves ([e].flatMap (·.saved w.files)) w w' := by
    rw [List.flatMap_singleton]
    exact h.saves
  rcases h.result with ⟨hok, rfl⟩ | ⟨hfail, failure, hfailure, rfl⟩
  · refine ⟨_, w', rfl, hsaves, ?_, [], ?_, ?_⟩
    · rw [List.flatMap_singleton, Export.listed, if_pos hok]
    · rw [List.filter_cons_of_neg (by simp [hok])]
      exact .nil
    · rw [h.errors]
      exact String.append_empty.symm
  · let warning := s!"Warning: could not write {e.what}: {failure.message}\n"
    refine ⟨[], _, rfl, ?_, ?_, [warning], ?_, ?_⟩
    · exact ⟨hsaves.written, hsaves.files, hsaves.output, hsaves.clock, hsaves.runId⟩
    · rw [List.flatMap_singleton, Export.listed, hfail]
      rfl
    · rw [List.filter_cons_of_pos (by simp [hfail])]
      exact .cons ⟨failure, hfailure, rfl⟩ .nil
    · show w'.errors ++ warning = w.errors ++ String.join [warning]
      rw [h.errors, String.join_cons, String.join_nil, String.append_empty]

/-- An export under a name, if there is one. -/
theorem of_exportTo (directory : String) (name? : Option String) (ext : String)
    {what text : String} {write : String → StateM Watched (Except Failure Unit)}
    (h : ∀ path, Export.WritesOn w (write path) what path text) :
    ∃ created w', CommandLine.exportTo directory name? ext what write w = (created, w') ∧
      Carried (name?.toList.map fun name => .single what (exported directory name ext) text)
        w w' created := by
  cases name? with
  | none => exact ⟨[], w, rfl, nil w⟩
  | some name =>
    obtain ⟨r, w₁, hwrite, hmade⟩ := h (exported directory name ext)
    obtain ⟨created, w', hend, hcarried⟩ := of_made hmade
    exact ⟨created, w', (Watched.bind_apply hwrite _).trans hend, hcarried⟩

end Carried

namespace CommandLine

/-- The exports of a run, with what they write at this time and under this name. -/
def Command.exports (c : Command) (study : Study) (a : Analysis) (now : Timestamp) (id : RunId) :
    List Export :=
  let document := ResultDocument.ofAnalysis a description now id
  [.tables c.directory (Table.ofAnalysis a)] ++
    (c.save.toList.map fun name =>
      .single "JSON results" (exported c.directory name "json") document.text) ++
    (c.markdown.toList.map fun name =>
      .single "Markdown report" (exported c.directory name "md") (Report.text a now.date)) ++
    c.dumpSamples.toList.map fun name =>
      .single "sample dump" (exported c.directory name "json") study.store.toJson.prettyText

theorem writesOn_saveResults (a : Analysis) (w : Watched) (path : String) :
    Export.WritesOn w (saveResults a path) "JSON results" path
      (ResultDocument.ofAnalysis a description w.clock w.runId).text := by
  obtain ⟨r, w', hwrite, hmade⟩ := Export.writesOn_writeReported w (.resultsWritten path)
    "JSON results" path (ResultDocument.ofAnalysis a description w.clock w.runId).text
  refine ⟨r, w', ?_, hmade⟩
  unfold saveResults ResultDocument.write
  refine (Watched.bind_apply (Watched.now_apply w) _).trans ?_
  exact (Watched.bind_apply (Watched.newRunId_apply w) _).trans hwrite

theorem writesOn_report (a : Analysis) (w : Watched) (path : String) :
    Export.WritesOn w (Report.write a path) "Markdown report" path
      (Report.text a w.clock.date) := by
  obtain ⟨r, w', hwrite, hmade⟩ := Export.writesOn_writeReported w (.reportWritten path)
    "Markdown report" path (Report.text a w.clock.date)
  refine ⟨r, w', ?_, hmade⟩
  unfold Report.write
  exact (Watched.bind_apply (Watched.now_apply w) _).trans hwrite

theorem writesOn_dump (s : Store) (w : Watched) (path : String) :
    Export.WritesOn w (s.write path) "sample dump" path s.toJson.prettyText :=
  Export.writesOn_writeText w _ path _

/-- **The exports of a run are carried out**, each of them on its own. -/
theorem Command.carried_exportAll (c : Command) (study : Study) (a : Analysis) (w : Watched) :
    ∃ created w', (c.exportAll study a : StateM Watched _) w = (created, w') ∧
      Carried (c.exports study a w.clock w.runId) w w' created := by
  obtain ⟨r, w₀, htables, hmade⟩ := Export.makes_write a c.directory w
  obtain ⟨created₁, w₁, hend, h₁⟩ := Carried.of_made hmade
  obtain ⟨created₂, w₂, hsave, h₂⟩ :=
    Carried.of_exportTo c.directory c.save "json" (writesOn_saveResults a w₁)
  obtain ⟨created₃, w₃, hreport, h₃⟩ :=
    Carried.of_exportTo c.directory c.markdown "md" (writesOn_report a w₂)
  obtain ⟨created₄, w₄, hdump, h₄⟩ :=
    Carried.of_exportTo c.directory c.dumpSamples "json" (writesOn_dump study.store w₃)
  refine ⟨created₁ ++ created₂ ++ created₃ ++ created₄, w₄, ?_, ?_⟩
  · refine (Watched.bind_apply htables _).trans ?_
    refine (Watched.bind_apply hend _).trans ?_
    refine (Watched.bind_apply hsave _).trans ?_
    refine (Watched.bind_apply hreport _).trans ?_
    exact Watched.bind_apply hdump _
  · rw [h₁.saves.clock, h₁.saves.runId] at h₂
    rw [h₂.saves.clock, h₁.saves.clock] at h₃
    unfold Command.exports
    exact ((h₁.append h₂).append h₃).append h₄

end CommandLine

end TransferCost
