import TransferCost.Proofs.Populate

/-!
# Sessions only ever append

A session is a study that its user works with for a while.  He simulates, takes in texts and files,
changes the settings, asks whether there are enough samples, analyzes, and writes the samples out,
in any order and any number of times.  Some of these steps fail.  All of them work on the one store,
in place, so that a step that fails may in principle leave something behind.

## 1.  Steps

`Action` has one constructor for each step, with what comes in from outside: the text, the content
of the file, or what became of the file that was written.  `Action.program` is the step as a program
in place.  `Action.contribution` says what a step has to add to a partition; it looks at the
settings and at the input of the step, and not at the store.

`Action.adds` is what one step does: it appends groups of samples which hold its contribution, and
it answers with the number of these samples.  A step that fails has nothing to add.

## 2.  Runs

`Study.samples_after` and `Study.size_after` follow from this along the run.  The other statements
of `Study.append_only` are about two points of one run: enough samples stay enough under the same
threshold (`Study.isSufficient_after`), and an analysis is repeated as long as nothing is added
(`Study.analyze_after`).
-/

namespace TransferCost

open Files (FileError)
open Intake (samplesFor)

/-! ## 1.  Steps -/

/-- A step of a session. -/
inductive Action where
  | generate
  | ingestText (text : String)
  /-- A file that has this content, or this reason to have none. -/
  | ingestFile (path : String) (content : Except FileError String)
  | configure (settings : Settings)
  | askSufficient
  | analyze
  /-- The samples are written to a file, which works or does not. -/
  | dump (path : String) (written : Except FileError Unit)

/-- What a step answers if it succeeds. -/
inductive Answer where
  | added (count : ℕ)
  | configured
  | sufficient (b : Bool)
  | analyzed (a : Analysis)
  | dumped (text : String)

/-- The number of samples that were added, according to the answer. -/
def addedCount : Except Failure Answer → ℕ
  | .ok (.added count) => count
  | _ => 0

namespace InPlace

variable {α β : Type}

/-- Looks at the store. -/
def consult (f : Store → Logged (Except Failure α)) : InPlace α :=
  ExceptT.mk fun s => (·, s) <$> f s

@[simp] theorem outcome_consult (f : Store → Logged (Except Failure α)) (s : Store) :
    (consult f).outcome s = (·, s) <$> f s :=
  rfl

theorem outcome_map (f : α → β) (x : InPlace α) (s : Store) :
    (f <$> x).outcome s = (fun r => (f <$> r.1, r.2)) <$> x.outcome s := by
  rw [map_eq_pure_bind, outcome_bind, map_eq_pure_bind]
  congr 1
  funext r
  rcases r with ⟨_ | a, s'⟩ <;> rfl

end InPlace

namespace Action

/-- The step as a program in place. -/
def program (settings : Settings) : Action → InPlace Answer
  | generate => .added <$> InPlace.populate settings.range settings.model
  | ingestText text => .added <$> InPlace.ingestText text
  | ingestFile path content => .added <$> InPlace.ingestRead path content
  | configure _ => return .configured
  | askSufficient => InPlace.consult fun s =>
      return .ok (.sufficient (s.isSufficient settings.minSamples))
  | analyze => .analyzed <$> InPlace.consult fun s => Analysis.ofStore s settings.minSamples
  | dump path written => InPlace.consult fun s =>
      return (fun _ => .dumped s.toJson.prettyText) <$> written.mapError (.file path)

/-- The settings behind a step. -/
def settingsAfter (settings : Settings) : Action → Settings
  | configure settings' => settings'
  | _ => settings

/-- A step that may add samples. -/
def isAddition : Action → Bool
  | generate | ingestText _ | ingestFile _ _ => true
  | configure _ | askSufficient | analyze | dump _ _ => false

end Action

/-- The samples that the records of a document describe. -/
def Intake.samplesOf (d : Intake) (p : Partition) : List Sample :=
  (d.recordsOf p).filterMap fun r => r.complete.toOption

/-- What a text has to add to a partition: the samples of its records, if it is a document and each
of its records is a sample. -/
def Intake.contribution (text : String) (p : Partition) : List Sample :=
  match Intake.ofString text with
  | .error _ => []
  | .ok d =>
    match d.complete with
    | .error _ => []
    | .ok _ => d.samplesOf p

/-- What a step has to add to a partition. -/
def Action.contribution (settings : Settings) (p : Partition) : Action → List Sample
  | generate => settings.range.samples settings.model p
  | ingestText text | ingestFile _ (.ok text) => Intake.contribution text p
  | ingestFile _ (.error _) | configure _ | askSufficient | analyze | dump _ _ => []

namespace Study

/-- What a step answers, and the study behind it. -/
def perform (st : Study) (m : Action) : Except Failure Answer × Study :=
  let r := ((m.program st.settings).outcome st.store).value
  (r.1, ⟨m.settingsAfter st.settings, r.2⟩)

end Study

section Groups

variable {groups : List (Partition × List Sample)}

/-- The groups that a document completes to hold the samples of its records. -/
theorem Intake.samplesFor_of_complete {d : Intake} (h : d.complete = .ok groups) (p : Partition) :
    samplesFor groups p = d.samplesOf p := by
  have hsound : d.IsSound := by
    by_contra hnot
    obtain ⟨q, i, defect, -, herr⟩ := complete_of_not_isSound hnot
    rw [h] at herr
    exact absurd herr (by simp)
  obtain ⟨out, hout, -, hfor⟩ := complete_of_isSound hsound
  have hsame : out = groups := Except.ok.inj (hout.symm.trans h)
  have htoOption : (d.recordsOf p).map (fun r => r.complete.toOption) =
      (samplesFor groups p).map some := by
    have hmap := congrArg (List.map Except.toOption) (hfor p)
    rw [List.map_map, List.map_map, hsame] at hmap
    exact hmap.symm
  have hid : (fun r : Record => r.complete.toOption) = id ∘ fun r => r.complete.toOption := rfl
  rw [samplesOf, hid, ← List.filterMap_map, htoOption, List.filterMap_map]
  exact List.filterMap_some.symm

theorem sumOfCounts_add (f g : Partition → ℕ) (ps : List Partition) :
    sumOfCounts (ps.map fun p => f p + g p) = sumOfCounts (ps.map f) + sumOfCounts (ps.map g) := by
  induction ps with
  | nil => rfl
  | cons p ps ih =>
    rw [List.map_cons, List.map_cons, List.map_cons, sumOfCounts_cons, sumOfCounts_cons,
      sumOfCounts_cons, ih]
    omega

theorem sumOfCounts_own (q : Partition) (n : ℕ) :
    sumOfCounts (Partition.all.map fun p => if p = q then n else 0) = n := by
  rcases q with ⟨o, t⟩
  cases o <;> cases t <;> simp [Partition.all, TransferType.all, Optimization.all, sumOfCounts]

/-- **Every sample of some groups belongs to one partition**, so none is lost and none is counted
twice. -/
theorem sumOfCounts_samplesFor (groups : List (Partition × List Sample)) :
    sumOfCounts (Partition.all.map fun p => (samplesFor groups p).length) =
      Store.countAll groups := by
  induction groups with
  | nil => rfl
  | cons g rest ih =>
    obtain ⟨q, xs⟩ := g
    have hlength (p : Partition) : (samplesFor ((q, xs) :: rest) p).length =
        (if p = q then xs.length else 0) + (samplesFor rest p).length := by
      rw [Intake.samplesFor_cons, List.length_append]
      split_ifs <;> rfl
    simp only [hlength]
    rw [sumOfCounts_add, sumOfCounts_own, ih]
    rfl

theorem Store.size_appendAll (s : Store) (groups : List (Partition × List Sample)) :
    (s.appendAll groups).size = s.size + countAll groups := by
  have hlength (p : Partition) : ((s.appendAll groups).samples p).length =
      (s.samples p).length + (samplesFor groups p).length := by
    rw [Store.samples_appendAll, List.length_append]
  unfold size counts
  simp only [hlength]
  rw [sumOfCounts_add, sumOfCounts_samplesFor]

end Groups

/-! ### One step -/

/-- A step leaves a store behind to which it has added these groups, and its answer says so. -/
structure Adds (s : Store) (groups : List (Partition × List Sample))
    (r : Except Failure Answer × Store) : Prop where
  store : r.2 = s.appendAll groups
  count : addedCount r.1 = Store.countAll groups
  failure : ∀ e, r.1 = .error e → groups = []

theorem Adds.none {s : Store} {answer : Except Failure Answer} (h : addedCount answer = 0) :
    Adds s [] (answer, s) :=
  ⟨rfl, h, fun _ _ => rfl⟩

theorem Adds.some (s : Store) (groups : List (Partition × List Sample)) :
    Adds s groups (.ok (.added (Store.countAll groups)), s.appendAll groups) :=
  ⟨rfl, rfl, fun _ h => absurd h (by simp)⟩

open InPlace in
/-- What is left behind by a document that is taken in: everything that it describes, or nothing. -/
theorem adds_ingestText (s : Store) (text : String) :
    ∃ groups, (∀ p, samplesFor groups p = Intake.contribution text p) ∧
      Adds s groups ((Answer.added <$> ingestText text).outcome s).value := by
  rw [outcome_map, Logged.value_map, outcome_ingestText, Logged.value_map]
  unfold Store.ingestText Intake.contribution
  cases Intake.ofString text with
  | error e => exact ⟨[], fun _ => rfl, .none rfl⟩
  | ok d =>
    dsimp only
    rw [Store.ingest]
    cases hd : d.complete with
    | error e => exact ⟨[], fun _ => rfl, .none rfl⟩
    | ok groups => exact ⟨groups, Intake.samplesFor_of_complete hd, .some s groups⟩

open InPlace in
/-- A file is taken in as its text is, and a file that cannot be read adds nothing. -/
theorem outcome_ingestRead_ok (s : Store) (path text : String) :
    ((ingestRead path (.ok text)).outcome s).value = ((ingestText text).outcome s).value := by
  show ((ingestText text >>= fun count => report (.samplesLoaded count path) >>= fun _ =>
    pure count).outcome s).value = _
  rw [outcome_bind, Logged.value_bind]
  rcases ((ingestText text).outcome s).value with ⟨_ | n, s'⟩ <;> rfl

open InPlace in
/-- **What a step does**: it appends groups that hold its contribution. -/
theorem Action.adds (m : Action) (settings : Settings) (s : Store) :
    ∃ groups, (∀ p, samplesFor groups p = m.contribution settings p) ∧
      Adds s groups ((m.program settings).outcome s).value := by
  cases m with
  | generate =>
    refine ⟨settings.range.groups settings.model, samplesFor_groups _ _, ?_⟩
    rw [program, outcome_map, Logged.value_map, outcome_populate, Logged.value_map]
    exact .some s _
  | ingestText text => exact adds_ingestText s text
  | ingestFile path content =>
    cases content with
    | error e => exact ⟨[], fun _ => rfl, .none rfl⟩
    | ok text =>
      have hsame : ((Answer.added <$> ingestRead path (.ok text)).outcome s).value =
          ((Answer.added <$> InPlace.ingestText text).outcome s).value := by
        rw [outcome_map, outcome_map, Logged.value_map, Logged.value_map, outcome_ingestRead_ok]
      rw [program, hsame]
      exact adds_ingestText s text
  | configure settings' => exact ⟨[], fun _ => rfl, .none rfl⟩
  | askSufficient => exact ⟨[], fun _ => rfl, .none rfl⟩
  | analyze =>
    refine ⟨[], fun _ => rfl, ?_⟩
    rw [program, outcome_map, Logged.value_map, outcome_consult, Logged.value_map]
    cases (Analysis.ofStore s settings.minSamples).value with
    | error e => exact .none rfl
    | ok a => exact .none rfl
  | dump path written =>
    cases written with
    | error e => exact ⟨[], fun _ => rfl, .none rfl⟩
    | ok _ => exact ⟨[], fun _ => rfl, .none rfl⟩

namespace Study

variable {st : Study} {m : Action}

theorem samples_perform (st : Study) (m : Action) (p : Partition) :
    (st.perform m).2.store.samples p = st.store.samples p ++ m.contribution st.settings p := by
  obtain ⟨groups, hfor, hadds⟩ := m.adds st.settings st.store
  show (((m.program st.settings).outcome st.store).value.2).samples p = _
  rw [hadds.store, Store.samples_appendAll, hfor]

theorem size_perform (st : Study) (m : Action) :
    (st.perform m).2.store.size = st.store.size + addedCount (st.perform m).1 := by
  obtain ⟨groups, -, hadds⟩ := m.adds st.settings st.store
  show (((m.program st.settings).outcome st.store).value.2).size =
    st.store.size + addedCount ((m.program st.settings).outcome st.store).value.1
  rw [hadds.store, Store.size_appendAll, hadds.count]

/-- A step that fails leaves the store as it is. -/
theorem store_perform_of_error {e : Failure} (h : (st.perform m).1 = .error e) :
    (st.perform m).2.store = st.store := by
  obtain ⟨groups, -, hadds⟩ := m.adds st.settings st.store
  show ((m.program st.settings).outcome st.store).value.2 = st.store
  rw [hadds.store, hadds.failure e h]
  rfl

/-- A step that only looks leaves the store as it is. -/
theorem store_perform_of_not_isAddition (h : m.isAddition = false) :
    (st.perform m).2.store = st.store := by
  apply Store.ext_samples
  intro p
  rw [samples_perform]
  cases m with
  | configure _ | askSufficient | analyze | dump _ _ => exact List.append_nil _
  | generate | ingestText _ | ingestFile _ _ => exact absurd h (by simp [Action.isAddition])

theorem perform_askSufficient (st : Study) :
    (st.perform .askSufficient).1 = .ok (.sufficient st.isSufficient) :=
  rfl

theorem perform_analyze (st : Study) :
    (st.perform .analyze).1 = Answer.analyzed <$> st.analyze.value := by
  show ((Answer.analyzed <$> InPlace.consult _).outcome st.store).value.1 = _
  rw [InPlace.outcome_map]
  rfl

/-! ## 2.  Runs -/

/-- The study behind some steps. -/
def after (st : Study) : List Action → Study
  | [] => st
  | m :: ms => (st.perform m).2.after ms

/-- The steps, each with the study in front of it. -/
def history (st : Study) : List Action → List (Study × Action)
  | [] => []
  | m :: ms => (st, m) :: (st.perform m).2.history ms

theorem samples_after (st : Study) (ms : List Action) (p : Partition) :
    (st.after ms).store.samples p = st.store.samples p ++
      (st.history ms).flatMap fun e => e.2.contribution e.1.settings p := by
  induction ms generalizing st with
  | nil => exact (List.append_nil _).symm
  | cons m ms ih => rw [after, history, ih, samples_perform, List.flatMap_cons, List.append_assoc]

theorem size_after (st : Study) (ms : List Action) :
    (st.after ms).store.size = st.store.size +
      sumOfCounts ((st.history ms).map fun e => addedCount (e.1.perform e.2).1) := by
  induction ms generalizing st with
  | nil => rfl
  | cons m ms ih =>
    rw [after, history, ih, size_perform, List.map_cons, sumOfCounts_cons, Nat.add_assoc]

/-- This step, taken from this study, adds nothing.  It fails, or it only looks. -/
def IsIdle (e : Study × Action) : Prop :=
  e.2.isAddition = true → ∃ failure, (e.1.perform e.2).1 = .error failure

theorem store_after_of_isIdle {ms : List Action} (h : ∀ e ∈ st.history ms, IsIdle e) :
    (st.after ms).store = st.store := by
  induction ms generalizing st with
  | nil => rfl
  | cons m ms ih =>
    have hstep : (st.perform m).2.store = st.store := by
      cases hm : m.isAddition with
      | false => exact store_perform_of_not_isAddition hm
      | true =>
        obtain ⟨failure, hfailure⟩ := h (st, m) List.mem_cons_self hm
        exact store_perform_of_error hfailure
    exact (ih fun e he => h e (List.mem_cons_of_mem _ he)).trans hstep

/-- What a partition holds stays in front. -/
theorem prefix_after (st : Study) (ms : List Action) (p : Partition) :
    st.store.samples p <+: (st.after ms).store.samples p := by
  rw [samples_after]
  exact List.prefix_append _ _

/-- Under the same threshold, enough samples stay enough. -/
theorem isSufficient_after {ms : List Action}
    (hthreshold : (st.after ms).settings.minSamples = st.settings.minSamples)
    (h : st.isSufficient = true) : (st.after ms).isSufficient = true := by
  rw [isSufficient, Store.isSufficient_iff] at h ⊢
  rw [hthreshold]
  exact fun p => Nat.le_trans (h p) (prefix_after st ms p).length_le

/-- Under the same threshold, an analysis is repeated as long as nothing is added. -/
theorem analyze_after {ms : List Action}
    (hthreshold : (st.after ms).settings.minSamples = st.settings.minSamples)
    (hidle : ∀ e ∈ st.history ms, IsIdle e) : (st.after ms).analyze = st.analyze := by
  rw [analyze, analyze, hthreshold, store_after_of_isIdle hidle]

end Study

/-- **A session only ever appends.**  Let any steps be taken from an empty study.
* Each partition is the concatenation of what the steps had to add to it, in their order.
* The size of the store is the sum of the counts that the steps answered.
* The next step, whatever it is, keeps the content of each partition in front of what it adds, and
  a step that fails or only looks adds nothing.
* Once there are enough samples there will always be enough under the same threshold.
* As long as steps add nothing, an analysis under the same threshold has the same outcome. -/
theorem Study.append_only (settings : Settings) (ms : List Action) :
    let st := (start settings).after ms
    (∀ p, st.store.samples p =
      ((start settings).history ms).flatMap fun e => e.2.contribution e.1.settings p) ∧
    st.store.size =
      sumOfCounts (((start settings).history ms).map fun e => addedCount (e.1.perform e.2).1) ∧
    (∀ m, (∀ p, st.store.samples p <+: (st.perform m).2.store.samples p) ∧
      (IsIdle (st, m) → (st.perform m).2.store = st.store)) ∧
    (∀ ms', (st.after ms').settings.minSamples = st.settings.minSamples →
      (st.perform .askSufficient).1 = .ok (.sufficient true) →
      ((st.after ms').perform .askSufficient).1 = .ok (.sufficient true)) ∧
    ∀ ms', (st.after ms').settings.minSamples = st.settings.minSamples →
      (∀ e ∈ st.history ms', IsIdle e) →
      ((st.after ms').perform .analyze).1 = (st.perform .analyze).1 := by
  intro st
  refine ⟨?_, ?_, ?_, ?_, ?_⟩
  · intro p
    have hempty : (start settings).store.samples p = [] := Store.samples_empty p
    rw [samples_after, hempty, List.nil_append]
  · rw [size_after]
    exact Nat.zero_add _
  · intro m
    refine ⟨fun p => prefix_after st [m] p, ?_⟩
    intro hidle
    have hall : ∀ e ∈ st.history [m], IsIdle e := by
      simpa [history] using hidle
    exact store_after_of_isIdle hall
  · intro ms' hthreshold hsufficient
    rw [perform_askSufficient, Except.ok.injEq, Answer.sufficient.injEq] at hsufficient ⊢
    exact isSufficient_after hthreshold hsufficient
  · intro ms' hthreshold hidle
    rw [perform_analyze, perform_analyze, analyze_after hthreshold hidle]

/-- A simulation, and then a text that is no document, an analysis, and other settings. -/
theorem Study.append_only_small :
    let st := (start .small).after [.generate]
    let st' := st.after [.ingestText "[", .analyze, .configure .standard]
    (st.perform .askSufficient).1 = .ok (.sufficient true) ∧
      (st'.perform .askSufficient).1 = .ok (.sufficient true) ∧
      (st'.perform .analyze).1 = (st.perform .analyze).1 := by
  intro st st'
  obtain ⟨-, -, -, hsufficient, hanalysis⟩ := append_only .small [.generate]
  have henough : (st.perform .askSufficient).1 = .ok (.sufficient true) := by
    rw [perform_askSufficient]
    rfl
  have hidle : ∀ e ∈ st.history [.ingestText "[", .analyze, .configure .standard], IsIdle e := by
    simp only [history, List.forall_mem_cons]
    exact ⟨fun _ => ⟨_, rfl⟩, fun h => absurd h (by decide), fun h => absurd h (by decide),
      by simp⟩
  exact ⟨henough, hsufficient _ rfl henough, hanalysis _ rfl hidle⟩

end TransferCost
