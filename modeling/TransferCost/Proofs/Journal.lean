import TransferCost.CommandLine.Run
import TransferCost.Proofs.Files

/-!
# A machine that keeps a journal

Which files a run writes cannot be seen from the tree that it leaves behind: a file that is replaced
by itself leaves no trace.  So the effects of a run are stated on a machine that writes a journal,
and this file says what that machine does.

## 1.  The journal

`Watched` is a machine that notes each file that it writes, with its text.  There is one lemma for
each request to it.

## 2.  The journal changes nothing

`Mirrors x y` says that `x`, on a machine with a journal, does what `y` does on a machine without.
A program for any host mirrors itself.  This holds of all such programs, but no single theorem can
say so, and it is shown for each of them, down to `mirrors_perform`: whatever is said of a run on a
watched machine is true of the run on a plain one.
-/

namespace TransferCost

open Files (FileError FileTree)

/-! ## 1.  The journal -/

/-- A machine that notes which files it writes. -/
structure Watched extends Machine where
  /-- The files that were written, each with its text, in this order. -/
  written : List (String × String) := []

namespace Watched

instance : Host (StateM Watched) where
  readFile path := fun w => (w.files.read path, w)
  writeFile path text := fun w =>
    match w.files.write path text with
    | .ok files => (.ok (), { w with files, written := w.written ++ [(path, text)] })
    | .error e => (.error e, w)
  makeDirectories path := fun w =>
    ((w.files.makeDirs path).1, { w with files := (w.files.makeDirs path).2 })
  print text := fun w => ((), { w with output := w.output ++ text })
  complain text := fun w => ((), { w with errors := w.errors ++ text })
  now := fun w => (w.clock, w)
  newRunId := fun w => (w.runId, w)
  log e := fun w => ((), { w with logged := e :: w.logged })

variable {α β : Type} {w w' : Watched}

theorem bind_apply {x : StateM Watched α} {a : α} (h : x w = (a, w')) (f : α → StateM Watched β) :
    (x >>= f) w = f a w' := by
  show (match x w with
    | (a, w') => f a w') = f a w'
  rw [h]

theorem readFile_apply (path : String) (w : Watched) :
    (Host.readFile path : StateM Watched _) w = (w.files.read path, w) := rfl

theorem makeDirectories_apply (path : String) (w : Watched) :
    (Host.makeDirectories path : StateM Watched _) w =
      ((w.files.makeDirs path).1, { w with files := (w.files.makeDirs path).2 }) := rfl

theorem now_apply (w : Watched) : (Host.now : StateM Watched Timestamp) w = (w.clock, w) := rfl

theorem newRunId_apply (w : Watched) : (Host.newRunId : StateM Watched RunId) w = (w.runId, w) :=
  rfl

theorem log_apply (e : Event) (w : Watched) :
    (Host.log e : StateM Watched Unit) w = ((), { w with logged := e :: w.logged }) := rfl

/-- Events are noted, and nothing else happens. -/
theorem forM_log (es : List Event) (w : Watched) :
    (es.forM Host.log : StateM Watched Unit) w =
      ((), { w with logged := es.reverse ++ w.logged }) := by
  induction es generalizing w with
  | nil => rfl
  | cons e rest ih =>
    show (rest.forM Host.log : StateM Watched Unit) { w with logged := e :: w.logged } = _
    rw [ih, List.reverse_cons, List.append_assoc]
    rfl

theorem emit_apply (x : Logged α) (w : Watched) :
    (x.emit : StateM Watched α) w = (x.value, { w with logged := x.events.reverse ++ w.logged }) :=
  bind_apply (forM_log x.events w) _

/-- Some lines, each with its end. -/
def textOf (lines : List String) : String :=
  String.join (lines.map (· ++ "\n"))

theorem forM_printLine (lines : List String) (w : Watched) :
    (lines.forM printLine : StateM Watched Unit) w =
      ((), { w with output := w.output ++ textOf lines }) := by
  induction lines generalizing w with
  | nil =>
    show ((), w) = ((), { w with output := w.output ++ "" })
    rw [String.append_empty]
  | cons line rest ih =>
    show (rest.forM printLine : StateM Watched Unit)
      { w with output := w.output ++ (line ++ "\n") } = _
    rw [ih]
    dsimp only
    rw [String.append_assoc]
    have hjoin : textOf (line :: rest) = line ++ "\n" ++ textOf rest := by
      simp [textOf, String.join_cons]
    rw [hjoin]

/-- The machine with one more file, if it can be written, and a note of it. -/
def note (w : Watched) (file : String × String) : Watched :=
  { w with files := w.files.writeIf file, written := w.written ++ [file] }

theorem writeFile_of_site {path : String} {l : Files.Location} (h : w.files.site path = .ok l)
    (text : String) :
    (Host.writeFile path text : StateM Watched _) w = (.ok (), w.note (path, text)) := by
  have hwrite : w.files.write path text = .ok (w.files.writeIf (path, text)) := by
    unfold FileTree.writeIf
    dsimp only
    rw [FileTree.write_eq, h]
    rfl
  show (match w.files.write path text with
    | .ok files => (.ok (), { w with files, written := w.written ++ [(path, text)] })
    | .error e => (.error e, w) : Except FileError Unit × Watched) = _
  rw [hwrite]
  rfl

theorem writeFile_of_not_admits {path : String} (h : w.files.admits path = false)
    (text : String) :
    ∃ cause, (Host.writeFile path text : StateM Watched _) w = (.error cause, w) := by
  cases hsite : w.files.site path with
  | ok l =>
    rw [FileTree.admits_iff.mpr ⟨l, hsite⟩] at h
    exact absurd h (by simp)
  | error cause =>
    refine ⟨cause, ?_⟩
    show (match w.files.write path text with
      | .ok files => (.ok (), { w with files, written := w.written ++ [(path, text)] })
      | .error e => (.error e, w) : Except FileError Unit × Watched) = _
    rw [FileTree.write_eq, hsite]
    rfl

end Watched

/-! ## 2.  The journal changes nothing -/

/-- Both programs do the same, if the journal is left out. -/
def Mirrors {α : Type} (x : StateM Watched α) (y : StateM Machine α) : Prop :=
  ∀ w : Watched, y w.toMachine = ((x w).1, (x w).2.toMachine)

namespace Mirrors

variable {α β : Type} {x : StateM Watched α} {y : StateM Machine α}

theorem pure (a : α) : Mirrors (Pure.pure a) (Pure.pure a) :=
  fun _ => rfl

/-- **Programs that do the same step by step do the same as a whole.** -/
theorem bind (h : Mirrors x y) {f : α → StateM Watched β} {g : α → StateM Machine β}
    (hnext : ∀ a, Mirrors (f a) (g a)) : Mirrors (x >>= f) (y >>= g) := by
  intro w
  show (match y w.toMachine with
    | (a, m) => g a m) = _
  rw [h w]
  exact hnext (x w).1 (x w).2

theorem forM (bs : List β) {f : β → StateM Watched Unit} {g : β → StateM Machine Unit}
    (h : ∀ b, Mirrors (f b) (g b)) : Mirrors (bs.forM f) (bs.forM g) := by
  induction bs with
  | nil => exact pure ()
  | cons b rest ih => exact (h b).bind fun _ => ih

/-! ### Requests -/

theorem readFile (path : String) : Mirrors (Host.readFile path) (Host.readFile path) :=
  fun _ => rfl

theorem writeFile (path text : String) :
    Mirrors (Host.writeFile path text) (Host.writeFile path text) := by
  intro w
  have hplain : (Host.writeFile path text : StateM Machine _) w.toMachine =
      match w.files.write path text with
      | .ok files => (.ok (), { w.toMachine with files })
      | .error e => (.error e, w.toMachine) := rfl
  have hwatched : (Host.writeFile path text : StateM Watched _) w =
      match w.files.write path text with
      | .ok files => (.ok (), { w with files, written := w.written ++ [(path, text)] })
      | .error e => (.error e, w) := rfl
  rw [hplain, hwatched]
  cases w.files.write path text <;> rfl

theorem makeDirectories (path : String) :
    Mirrors (Host.makeDirectories path) (Host.makeDirectories path) :=
  fun _ => rfl

theorem print (text : String) : Mirrors (Host.print text) (Host.print text) :=
  fun _ => rfl

theorem complain (text : String) : Mirrors (Host.complain text) (Host.complain text) :=
  fun _ => rfl

theorem now : Mirrors Host.now Host.now :=
  fun _ => rfl

theorem newRunId : Mirrors Host.newRunId Host.newRunId :=
  fun _ => rfl

theorem log (e : Event) : Mirrors (Host.log e) (Host.log e) :=
  fun _ => rfl

theorem emit (x : Logged α) : Mirrors x.emit x.emit :=
  (forM x.events log).bind fun _ => pure x.value

theorem printLines (lines : List String) :
    Mirrors (lines.forM printLine) (lines.forM printLine) :=
  forM lines fun _ => print _

end Mirrors

/-! ### Programs -/

section Programs

variable (path : String) (a : Analysis)

theorem mirrors_load : Mirrors (Settings.load path) (Settings.load path) := by
  refine (Mirrors.readFile path).bind ?_
  rintro (e | text) <;> exact .pure _

theorem mirrors_ingestFile (study : Study) :
    Mirrors (study.ingestFile path) (study.ingestFile path) :=
  (Mirrors.readFile path).bind fun _ => .emit _

theorem mirrors_writeText (text : String) :
    Mirrors (writeText path text) (writeText path text) := by
  refine (Mirrors.writeFile path text).bind ?_
  rintro (e | done) <;> exact .pure _

theorem mirrors_writeReported (event : Event) (text : String) :
    Mirrors (writeReported event path text) (writeReported event path text) := by
  refine (mirrors_writeText path text).bind ?_
  rintro (failure | done)
  · exact .pure _
  · exact (Mirrors.log event).bind fun _ => .pure _

theorem mirrors_writeEach (ts : List (String × Table)) :
    Mirrors (Table.writeEach ts) (Table.writeEach ts) := by
  induction ts with
  | nil => exact .pure _
  | cons entry rest ih =>
    refine (Mirrors.writeFile _ _).bind ?_
    rintro (e | done)
    · exact .pure _
    · exact ih.bind fun _ => .pure _

theorem mirrors_tables (directory : String) :
    Mirrors (Table.write a directory) (Table.write a directory) := by
  refine (mirrors_writeEach _).bind ?_
  rintro (e | paths)
  · exact .pure _
  · exact (Mirrors.log _).bind fun _ => .pure _

end Programs

namespace CommandLine

variable (c : Command)

theorem mirrors_loadSettings : Mirrors c.loadSettings c.loadSettings := by
  unfold Command.loadSettings
  cases c.config with
  | none => exact .pure _
  | some path =>
    refine (mirrors_load path).bind ?_
    rintro (e | loaded) <;> exact .pure _

theorem mirrors_gather (settings : Settings) : Mirrors (c.gather settings) (c.gather settings) := by
  unfold Command.gather
  cases c.input with
  | none =>
    cases c.generate with
    | true => exact (Mirrors.emit _).bind fun _ => .pure _
    | false => exact (Mirrors.log _).bind fun _ => (Mirrors.emit _).bind fun _ => .pure _
  | some path =>
    refine (mirrors_ingestFile path _).bind ?_
    rintro (e | answer) <;> exact .pure _

theorem mirrors_analyze (study : Study) : Mirrors (c.analyze study) (c.analyze study) := by
  refine (Mirrors.makeDirectories _).bind ?_
  rintro (e | done)
  · exact .pure _
  · refine (Mirrors.emit _).bind ?_
    rintro (e | a) <;> exact .pure _

theorem mirrors_prepare : Mirrors c.prepare c.prepare := by
  refine (mirrors_loadSettings c).bind ?_
  rintro (e | loaded)
  · exact .pure _
  · dsimp only
    cases (c.override loaded).fault? with
    | some f => exact .pure _
    | none =>
      refine (mirrors_gather c _).bind ?_
      rintro (e | study)
      · exact .pure _
      · refine (mirrors_analyze c study).bind ?_
        rintro (e | a) <;> exact .pure _

theorem mirrors_written (what : String) (result : Except Failure (List String)) :
    Mirrors (written what result) (written what result) := by
  cases result with
  | ok paths => exact .pure _
  | error e =>
    have hwarn : Mirrors (warn what e) (warn what e) :=
      (Mirrors.log _).bind fun _ => .complain _
    exact hwarn.bind fun _ => .pure _

theorem mirrors_exportTo (directory : String) (name? : Option String) (ext what : String)
    {x : String → StateM Watched (Except Failure Unit)}
    {y : String → StateM Machine (Except Failure Unit)} (h : ∀ path, Mirrors (x path) (y path)) :
    Mirrors (exportTo directory name? ext what x) (exportTo directory name? ext what y) := by
  cases name? with
  | none => exact .pure _
  | some name => exact (h _).bind fun _ => mirrors_written what _

theorem mirrors_exportAll (study : Study) (a : Analysis) :
    Mirrors (c.exportAll study a) (c.exportAll study a) := by
  have hresults (path : String) : Mirrors (saveResults a path) (saveResults a path) :=
    Mirrors.now.bind fun _ => Mirrors.newRunId.bind fun _ => mirrors_writeReported _ _ _
  have hreport (path : String) : Mirrors (Report.write a path) (Report.write a path) :=
    Mirrors.now.bind fun _ => mirrors_writeReported _ _ _
  have hdump (path : String) : Mirrors (study.store.write path) (study.store.write path) :=
    mirrors_writeText _ _
  refine (mirrors_tables a c.directory).bind fun _ => ?_
  refine (mirrors_written _ _).bind fun _ => ?_
  refine (mirrors_exportTo _ _ _ _ hresults).bind fun _ => ?_
  refine (mirrors_exportTo _ _ _ _ hreport).bind fun _ => ?_
  exact (mirrors_exportTo _ _ _ _ hdump).bind fun _ => .pure _

/-- **The journal changes nothing.**  A run on a watched machine does what it does on a plain
one. -/
theorem mirrors_perform (i : Invocation) : Mirrors (perform i) (perform i) := by
  cases i with
  | run c =>
    refine Mirrors.now.bind fun started => ?_
    refine (mirrors_prepare c).bind ?_
    rintro (e | ⟨study, a⟩)
    · exact (Mirrors.complain _).bind fun _ => .pure _
    · refine (Mirrors.printLines _).bind fun _ => ?_
      refine (mirrors_exportAll c study a).bind fun _ => ?_
      exact Mirrors.now.bind fun _ => (Mirrors.printLines _).bind fun _ => .pure _
  | help => exact (Mirrors.print _).bind fun _ => .pure _
  | version => exact (Mirrors.print _).bind fun _ => .pure _
  | misuse => exact (Mirrors.complain _).bind fun _ => .pure _

end CommandLine
end TransferCost
