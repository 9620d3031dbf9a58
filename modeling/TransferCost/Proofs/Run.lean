import TransferCost.Proofs.Averages
import TransferCost.Proofs.Exports

/-!
# Exit status and effects of a run

A run has six places at which it may be aborted, and after them up to five files that may fail to be
written.  This file says when it is aborted, and what is left behind in either case.

## 1.  Before the exports

`Command.IsReady` lists the conditions, in the order in which they are looked at.  `Answers` says
when a program has an answer, and `Answers.bind` that conditions are met one after the other.
`Command.answers_prepare` puts the preparations together: a run gets past them if and only if it is
ready, and until then it has printed nothing and made nothing but directories.

## 2.  The whole run

`Command.status_and_effects` joins this with what the exports leave behind.
-/

namespace TransferCost
namespace CommandLine

open Files (FileTree)
open Files.FileTree (OnlyDirectories)

/-! ## 1.  Before the exports -/

/-- The settings of a run, before the overrides.  A file with settings can be read, and they have no
fault. -/
def Command.Configures (c : Command) (t : FileTree) (loaded : Settings) : Prop :=
  match c.config with
  | none => loaded = .standard
  | some path => ∃ text, t.read path = .ok text ∧ Settings.ofString text = .ok loaded ∧
      loaded.check = .ok ()

/-- The study of a run with its samples.  They are simulated, or those of a file that can be read
and is taken in. -/
def Command.Gathers (c : Command) (t : FileTree) (settings : Settings) (study : Study) : Prop :=
  match c.input with
  | none => study = (Study.start settings).simulate.value.2
  | some path => ∃ text count, t.read path = .ok text ∧
      ((Study.start settings).ingestText text).value = .ok (count, study)

/-- The command can be carried out in a tree, with these settings and this study.  The settings are
there and have no fault, neither before the overrides nor with them; the samples are there; the
output directory is there or can be made; and each partition holds enough samples. -/
structure Command.IsReady (c : Command) (t : FileTree) (settings : Settings) (study : Study) :
    Prop where
  configured : ∃ loaded, c.Configures t loaded ∧ settings = c.override loaded
  sound : settings.check = .ok ()
  gathered : c.Gathers t settings study
  directory : (t.makeDirs c.directory).1 = .ok ()
  enough : ∀ p, max 1 settings.minSamples ≤ (study.store.samples p).length

/-- From one machine to the other nothing was printed or written, and nothing was made but
directories. -/
structure Quiet (w w' : Watched) : Prop where
  output : w'.output = w.output
  errors : w'.errors = w.errors
  written : w'.written = w.written
  clock : w'.clock = w.clock
  runId : w'.runId = w.runId
  files : OnlyDirectories w.files w'.files

theorem check_eq_ok_iff {s : Settings} : s.check = .ok () ↔ s.fault? = none := by
  unfold Settings.check
  cases s.fault? with
  | none => simp
  | some f => simp

theorem ofFile_eq_ok_iff (path text : String) (s : Settings) :
    Settings.ofFile path text = .ok s ↔ Settings.ofString text = .ok s ∧ s.check = .ok () := by
  unfold Settings.ofFile
  cases Settings.ofString text with
  | error e => simp
  | ok s' =>
    dsimp only
    rw [Except.ok.injEq]
    cases hfault : s'.fault? with
    | none =>
      rw [Except.ok.injEq]
      constructor
      · rintro rfl
        exact ⟨rfl, check_eq_ok_iff.mpr hfault⟩
      · exact fun h => h.1
    | some f =>
      refine iff_of_false (by simp) ?_
      rintro ⟨rfl, hcheck⟩
      rw [check_eq_ok_iff.mp hcheck] at hfault
      exact absurd hfault (by simp)

theorem value_ingestRead_eq_ok_iff (st : Study) (path text : String) (answer : ℕ × Study) :
    (st.ingestRead path (.ok text)).value = .ok answer ↔
      (st.ingestText text).value = .ok answer := by
  show (st.ingestText text >>= _).value = _ ↔ _
  rw [Logged.value_bind]
  rcases (st.ingestText text).value with e | ⟨n, s⟩ <;> rfl

/-! ### Answers on a watched machine -/

/-- The program, on this machine, has an answer exactly if there is one with this property.  Its
result and the machine that it leaves behind are in the relation `R`. -/
def Answers {ε α : Type} (w : Watched) (x : StateM Watched (Except ε α)) (P : α → Prop)
    (R : Except ε α → Watched → Prop) : Prop :=
  ∃ r w', x w = (r, w') ∧ R r w' ∧ ∀ a, r = .ok a ↔ P a

/-- Nothing but events has been added to the machine. -/
def Logs (w w' : Watched) : Prop :=
  ∃ logged, w' = { w with logged }

theorem Logs.refl (w : Watched) : Logs w w :=
  ⟨_, rfl⟩

theorem Logs.trans {w w' w'' : Watched} (h : Logs w w') (h' : Logs w' w'') : Logs w w'' := by
  obtain ⟨logged, rfl⟩ := h
  obtain ⟨logged', rfl⟩ := h'
  exact ⟨logged', rfl⟩

namespace Answers

variable {ε ε' α β : Type} {w : Watched} {x : StateM Watched (Except ε α)} {P P' : α → Prop}
  {R : Except ε α → Watched → Prop}

theorem congr (h : Answers w x P R) (hP : ∀ a, P a ↔ P' a) : Answers w x P' R := by
  obtain ⟨r, w', hrun, hR, hiff⟩ := h
  exact ⟨r, w', hrun, hR, fun a => (hiff a).trans (hP a)⟩

theorem pure {r : Except ε α} (hR : R r w) : Answers w (Pure.pure r) (fun a => r = .ok a) R :=
  ⟨r, w, rfl, hR, fun _ => Iff.rfl⟩

theorem error (e : ε) (hR : R (.error e) w) (hP : ∀ a, ¬ P a) :
    Answers w (Pure.pure (.error e)) P R :=
  (pure hR).congr fun a => iff_of_false (by simp) (hP a)

theorem emit (y : Logged (Except ε α)) :
    Answers w y.emit (fun a => y.value = .ok a) fun _ => Logs w :=
  ⟨y.value, _, Watched.emit_apply y w, ⟨_, rfl⟩, fun _ => Iff.rfl⟩

theorem readFile (path : String) :
    Answers w (Host.readFile path) (fun text => w.files.read path = .ok text) fun _ => Logs w :=
  ⟨_, w, Watched.readFile_apply path w, ⟨_, rfl⟩, fun _ => Iff.rfl⟩

theorem makeDirectories (path : String) :
    Answers w (Host.makeDirectories path) (fun _ => (w.files.makeDirs path).1 = .ok ())
      fun _ w' => w' = { w with files := (w.files.makeDirs path).2 } :=
  ⟨_, _, Watched.makeDirectories_apply path w, rfl, fun _ => Iff.rfl⟩

theorem after {w₀ : Watched} (hw : Logs w₀ w) (h : Answers w x P fun _ => Logs w) :
    Answers w x P fun _ => Logs w₀ := by
  obtain ⟨r, w', hrun, hlogs, hiff⟩ := h
  exact ⟨r, w', hrun, hw.trans hlogs, hiff⟩

/-- **One program after the other.**  The whole has an answer exactly if the first one has, and then
the second. -/
theorem bind {f : Except ε α → StateM Watched (Except ε' β)} {Q : α → β → Prop}
    {S : Except ε' β → Watched → Prop} (h : Answers w x P R)
    (herror : ∀ e w', R (.error e) w' → Answers w' (f (.error e)) (fun _ => False) S)
    (hok : ∀ a w', R (.ok a) w' → Answers w' (f (.ok a)) (Q a) S) :
    Answers w (x >>= f) (fun b => ∃ a, P a ∧ Q a b) S := by
  obtain ⟨r, w', hrun, hR, hiff⟩ := h
  cases r with
  | error e =>
    obtain ⟨r', w'', hrun', hS, hiff'⟩ := herror e w' hR
    refine ⟨r', w'', (Watched.bind_apply hrun f).trans hrun', hS, ?_⟩
    intro b
    refine (hiff' b).trans (iff_of_false id ?_)
    rintro ⟨a, ha, -⟩
    exact absurd ((hiff a).mpr ha) (by simp)
  | ok a =>
    obtain ⟨r', w'', hrun', hS, hiff'⟩ := hok a w' hR
    refine ⟨r', w'', (Watched.bind_apply hrun f).trans hrun', hS, ?_⟩
    intro b
    rw [hiff']
    constructor
    · exact fun hb => ⟨a, (hiff a).mp rfl, hb⟩
    · rintro ⟨a', ha', hb⟩
      rwa [Except.ok.inj ((hiff a').mpr ha')]

end Answers

/-! ### The preparations -/

section Preparations

variable (c : Command) (w : Watched)

theorem answers_load (path : String) :
    Answers w (Settings.load path) (fun s => ∃ text, w.files.read path = .ok text ∧
      Settings.ofString text = .ok s ∧ s.check = .ok ()) fun _ => Logs w := by
  refine (Answers.readFile path).bind ?_ ?_
  · exact fun e w' hw => .error _ hw fun _ => not_false
  · exact fun text w' hw => (Answers.pure hw).congr fun s => ofFile_eq_ok_iff path text s

theorem Command.answers_loadSettings :
    Answers w c.loadSettings (c.Configures w.files) fun _ => Logs w := by
  unfold loadSettings Configures
  cases c.config with
  | none =>
    refine (Answers.pure (.refl w)).congr fun loaded => ?_
    rw [Except.ok.injEq]
    exact eq_comm
  | some path =>
    refine Answers.congr ((answers_load w path).bind (Q := fun s loaded => s = loaded) ?_ ?_)
      fun loaded => exists_eq_right
    · exact fun e w' hw => .error _ hw fun _ => not_false
    · exact fun s w' hw => (Answers.pure hw).congr fun loaded => by rw [Except.ok.injEq]

theorem answers_ingestFile (study : Study) (path : String) :
    Answers w (study.ingestFile path) (fun answer => ∃ text, w.files.read path = .ok text ∧
      (study.ingestText text).value = .ok answer) fun _ => Logs w := by
  refine (Answers.readFile path).bind ?_ ?_
  · intro e w' hw
    refine ((Answers.emit _).after hw).congr fun answer => iff_of_false ?_ id
    exact fun h => absurd h (by simp [Study.ingestRead])
  · exact fun text w' hw => ((Answers.emit _).after hw).congr fun answer =>
      value_ingestRead_eq_ok_iff study path text answer

theorem Command.answers_gather (settings : Settings) :
    Answers w (c.gather settings) (c.Gathers w.files settings) fun _ => Logs w := by
  unfold gather Gathers
  cases c.input with
  | none =>
    have hiff (study : Study) : (Except.ok (Study.start settings).simulate.value.2 :
        Except Abort Study) = .ok study ↔ study = (Study.start settings).simulate.value.2 := by
      rw [Except.ok.injEq]
      exact eq_comm
    cases c.generate with
    | true =>
      have hemit := Watched.emit_apply (Study.start settings).simulate w
      exact ⟨_, _, Watched.bind_apply hemit _, ⟨_, rfl⟩, hiff⟩
    | false =>
      have hemit := Watched.emit_apply (Study.start settings).simulate
        { w with logged := .simulationChosen :: w.logged }
      have hlog := Watched.log_apply .simulationChosen w
      exact ⟨_, _, (Watched.bind_apply hlog _).trans (Watched.bind_apply hemit _), ⟨_, rfl⟩, hiff⟩
  | some path =>
    refine Answers.congr ((answers_ingestFile w (Study.start settings) path).bind
      (Q := fun answer study => answer.2 = study) ?_ ?_) fun study => ?_
    · exact fun e w' hw => .error _ hw fun _ => not_false
    · exact fun answer w' hw => (Answers.pure hw).congr fun study => by rw [Except.ok.injEq]
    · constructor
      · rintro ⟨⟨count, study⟩, ⟨text, hread, hvalue⟩, rfl⟩
        exact ⟨text, count, hread, hvalue⟩
      · rintro ⟨text, count, hread, hvalue⟩
        exact ⟨(count, study), ⟨text, hread, hvalue⟩, rfl⟩

/-- What the preparations leave behind: they are quiet, and if there is an answer, then the output
directory is made. -/
structure Command.Prepares {α : Type} (c : Command) (w : Watched) (r : Except Abort α)
    (w' : Watched) : Prop where
  quiet : Quiet w w'
  files : (∃ answer, r = .ok answer) → w'.files = (w.files.makeDirs c.directory).2

theorem Command.prepares_error {α : Type} {w w' : Watched} (e : Abort) (h : Logs w w') :
    c.Prepares w (.error e : Except Abort α) w' := by
  obtain ⟨logged, rfl⟩ := h
  exact ⟨⟨rfl, rfl, rfl, rfl, rfl, .refl _⟩, by simp⟩

theorem Command.prepares_of_files {α : Type} {w w' : Watched} (r : Except Abort α)
    (h : Logs { w with files := (w.files.makeDirs c.directory).2 } w') :
    c.Prepares w r w' := by
  obtain ⟨logged, rfl⟩ := h
  exact ⟨⟨rfl, rfl, rfl, rfl, rfl, FileTree.onlyDirectories_makeDirs _ _⟩, fun _ => rfl⟩

/-- Events in front of the preparations do not matter. -/
theorem Command.Prepares.of_logged {α β : Type} {c : Command} {w w' : Watched}
    {logged : List Event} {r : Except Abort α} (h : c.Prepares { w with logged } r w')
    {r' : Except Abort β} (hr : (∃ b, r' = .ok b) → ∃ a, r = .ok a) : c.Prepares w r' w' := by
  obtain ⟨⟨houtput, herrors, hwritten, hclock, hrunId, honly⟩, hfiles⟩ := h
  exact ⟨⟨houtput, herrors, hwritten, hclock, hrunId, honly⟩, fun hb => hfiles (hr hb)⟩

theorem Command.answers_analyze (study : Study) :
    Answers w (c.analyze study) (fun a => (w.files.makeDirs c.directory).1 = .ok () ∧
      study.analyze.value = .ok a) (c.Prepares w) := by
  refine Answers.congr ((Answers.makeDirectories c.directory).bind
    (Q := fun _ a => study.analyze.value = .ok a) ?_ ?_) fun a => by simp
  · rintro e w' rfl
    exact .error _ (c.prepares_of_files _ (.refl _)) fun _ => not_false
  · rintro done w' rfl
    refine Answers.congr ((Answers.emit study.analyze).bind (Q := fun a a' => a = a') ?_ ?_)
      fun a => exists_eq_right
    · exact fun e w' hw => .error _ (c.prepares_of_files _ hw) fun _ => not_false
    · exact fun a w' hw => (Answers.pure (c.prepares_of_files _ hw)).congr fun a' => by
        rw [Except.ok.injEq]

theorem settings_ingestText {st st' : Study} {text : String} {count : ℕ}
    (h : (st.ingestText text).value = .ok (count, st')) : st'.settings = st.settings := by
  unfold Study.ingestText at h
  rw [Logged.value_bind] at h
  cases hstore : (st.store.ingestText text).value with
  | error e =>
    rw [hstore] at h
    exact absurd h (by simp)
  | ok answer =>
    rw [hstore] at h
    obtain ⟨-, rfl⟩ := Prod.mk.inj (Except.ok.inj h)
    rfl

/-- The samples that are gathered do not change the settings. -/
theorem Command.settings_of_gathers {c : Command} {t : FileTree} {settings : Settings}
    {study : Study} (h : c.Gathers t settings study) : study.settings = settings := by
  unfold Gathers at h
  cases hinput : c.input with
  | none =>
    rw [hinput] at h
    rw [h]
    rfl
  | some path =>
    rw [hinput] at h
    obtain ⟨text, count, -, h⟩ := h
    exact settings_ingestText h

/-- What the preparations look at, in this order. -/
theorem Command.isReady_iff {study : Study} {a : Analysis} {t : FileTree} :
    ((∃ settings, c.IsReady t settings study) ∧ study.analyze.value = .ok a) ↔
      ∃ loaded, c.Configures t loaded ∧ (c.override loaded).check = .ok () ∧
        c.Gathers t (c.override loaded) study ∧ (t.makeDirs c.directory).1 = .ok () ∧
        study.analyze.value = .ok a := by
  constructor
  · rintro ⟨⟨settings, ⟨loaded, hloaded, rfl⟩, hsound, hgathered, hdirectory, -⟩, ha⟩
    exact ⟨loaded, hloaded, hsound, hgathered, hdirectory, ha⟩
  · rintro ⟨loaded, hloaded, hsound, hgathered, hdirectory, ha⟩
    have henough := Analysis.exists_ok_iff.mp ⟨a, ha⟩
    rw [settings_of_gathers hgathered] at henough
    exact ⟨⟨_, ⟨loaded, hloaded, rfl⟩, hsound, hgathered, hdirectory, henough⟩, ha⟩

/-- **A run gets past its preparations if and only if it is ready**, and it is quiet until then. -/
theorem Command.answers_prepare :
    Answers w c.prepare (fun answer => (∃ settings, c.IsReady w.files settings answer.1) ∧
      answer.1.analyze.value = .ok answer.2) (c.Prepares w) := by
  refine Answers.congr ((c.answers_loadSettings w).bind (Q := fun loaded answer =>
    (c.override loaded).check = .ok () ∧ c.Gathers w.files (c.override loaded) answer.1 ∧
      (w.files.makeDirs c.directory).1 = .ok () ∧ answer.1.analyze.value = .ok answer.2) ?_ ?_)
    fun answer => (isReady_iff c).symm
  · exact fun e w' hw => .error _ (c.prepares_error _ hw) fun _ => not_false
  rintro loaded w' hw
  dsimp only
  cases hfault : (c.override loaded).fault? with
  | some f =>
    refine .error _ (c.prepares_error _ hw) ?_
    rintro answer ⟨hsound, -⟩
    rw [check_eq_ok_iff.mp hsound] at hfault
    exact absurd hfault (by simp)
  | none =>
    have hsound : (c.override loaded).check = .ok () := check_eq_ok_iff.mpr hfault
    obtain ⟨logged, rfl⟩ := hw
    refine Answers.congr ((c.answers_gather { w with logged } (c.override loaded)).bind
      (Q := fun study answer => ((w.files.makeDirs c.directory).1 = .ok () ∧
        study.analyze.value = .ok answer.2) ∧ study = answer.1) ?_ ?_) ?_
    · exact fun e w' hw => .error _ (c.prepares_error _ (.trans ⟨_, rfl⟩ hw)) fun _ => not_false
    · rintro study w' ⟨logged', rfl⟩
      refine Answers.congr ((c.answers_analyze { w with logged := logged' } study).bind
        (Q := fun a answer => (study, a) = answer) ?_ ?_) ?_
      · exact fun e w' hw => .error _ (hw.of_logged (by simp)) fun _ => not_false
      · exact fun a w' hw => (Answers.pure (hw.of_logged (by simp))).congr fun answer => by
          rw [Except.ok.injEq]
      · rintro ⟨study', a⟩
        simp only [Prod.mk.injEq]
        constructor
        · rintro ⟨a', hboth, hstudy, rfl⟩
          exact ⟨hboth, hstudy⟩
        · rintro ⟨hboth, hstudy⟩
          exact ⟨a, hboth, hstudy, rfl⟩
    · rintro ⟨study', a⟩
      simp only [hsound, true_and]
      constructor
      · rintro ⟨study, hgathers, hboth, rfl⟩
        exact ⟨hgathers, hboth⟩
      · rintro ⟨hgathers, hboth⟩
        exact ⟨study', hgathers, hboth, rfl⟩

end Preparations

/-! ## 2.  The whole run -/

/-- What a run with some exports has left behind, if `t` is the tree in front of them. -/
structure CarriesOut (exports : List Export) (t : FileTree) (a : Analysis) (w w' : Watched) :
    Prop where
  /-- The summary is printed, then the list of the files, then the last line. -/
  output : w'.output = w.output ++ Watched.textOf (Summary.lines a w.clock) ++
    Watched.textOf
      (closingLines (exports.flatMap (·.listed t)) (w.clock.millisSince w.clock))
  written : w'.written = w.written ++ exports.flatMap (·.saved t)
  files : w'.files = t.writeAll (exports.flatMap (·.saved t))
  /-- There is one warning for each export that fails. -/
  errors : ∃ warnings : List String,
    List.Forall₂ (fun e text => e.IsWarning t text)
      (exports.filter fun e => !e.succeeds t) warnings ∧
    w'.errors = w.errors ++ String.join warnings

/-- The two outcomes of a run. -/
theorem Command.run_cases (c : Command) (w : Watched) :
    (∃ w', (perform (.run c) : StateM Watched _) w = (1, w') ∧
      (¬ ∃ settings study, c.IsReady w.files settings study) ∧
      w'.output = w.output ∧ w'.written = w.written ∧ OnlyDirectories w.files w'.files) ∨
    ∃ w' study a, (perform (.run c) : StateM Watched _) w = (0, w') ∧
      (∃ settings, c.IsReady w.files settings study) ∧ study.analyze.value = .ok a ∧
      CarriesOut (c.exports study a w.clock w.runId) (w.files.makeDirs c.directory).2 a w w' := by
  obtain ⟨r, w₁, hprepare, ⟨hquiet, hfiles⟩, hready⟩ := c.answers_prepare w
  have hstart : (perform (.run c) : StateM Watched _) w = _ :=
    Watched.bind_apply (Watched.now_apply w) _
  have hrun := hstart.trans (Watched.bind_apply hprepare _)
  cases r with
  | error e =>
    refine .inl ⟨_, hrun, ?_, hquiet.output, hquiet.written, hquiet.files⟩
    rintro ⟨settings, study, h⟩
    have henough : study.store.HoldsEnough study.settings.minSamples := by
      rw [settings_of_gathers h.gathered]
      exact h.enough
    obtain ⟨a, ha⟩ := Analysis.exists_ok_iff.mpr henough
    exact absurd ((hready (study, a)).mpr ⟨⟨settings, h⟩, ha⟩) (by simp)
  | ok answer =>
    obtain ⟨study, a⟩ := answer
    dsimp only at hrun
    obtain ⟨hisready, ha⟩ := (hready (study, a)).mp rfl
    have hsummary := Watched.forM_printLine (Summary.lines a w.clock) w₁
    obtain ⟨created, w₂, hexports, hcarried⟩ := c.carried_exportAll study a
      { w₁ with output := w₁.output ++ Watched.textOf (Summary.lines a w.clock) }
    have hend := Watched.forM_printLine (closingLines created (w₂.clock.millisSince w.clock)) w₂
    have hwhole : (perform (.run c) : StateM Watched _) w = (0, { w₂ with
        output := w₂.output ++
          Watched.textOf (closingLines created (w₂.clock.millisSince w.clock)) }) := by
      refine hrun.trans ?_
      refine (Watched.bind_apply hsummary _).trans ?_
      refine (Watched.bind_apply hexports _).trans ?_
      refine (Watched.bind_apply (Watched.now_apply w₂) _).trans ?_
      exact Watched.bind_apply hend _
    obtain ⟨hsaves, hcreated, warnings, hwarnings, herrors⟩ := hcarried
    rw [hfiles ⟨_, rfl⟩, hquiet.clock, hquiet.runId] at hsaves hcreated hwarnings
    refine .inr ⟨_, study, a, hwhole, hisready, ha, ?_⟩
    refine ⟨?_, ?_, hsaves.files, warnings, hwarnings, ?_⟩
    · dsimp only
      rw [hsaves.output, hsaves.clock, hcreated, hquiet.output]
    · rw [← hquiet.written]
      exact hsaves.written
    · rw [← hquiet.errors]
      exact herrors

end CommandLine
end TransferCost
