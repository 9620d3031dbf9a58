import TransferCost.Exchange
import TransferCost.Proofs.Logged

/-!
# Taking samples into a store in place

`Store.ingest` answers with a new store, and so a caller who drops the answer has lost nothing.  A
caller who keeps one store and changes it has more to fear: what was appended before a failure stays
appended.  `InPlace` is the monad of such callers.  A failure there carries the store *as it is at
that moment*, and nothing is rolled back.

`InPlace.ingest` takes a document into the one store.  It completes every record first, and appends
group after group only then.

## Both ways are one

`InPlace.outcome_ingest`, `InPlace.outcome_ingestText` and `InPlace.outcome_ingestRead` say that the
programs in place leave behind what the functions of `Store` and `Study` answer, and after a failure
the store from before.  The events are the same as well.
-/

namespace TransferCost

open Files (FileError)

/-- Changes one store, reports, and may fail.  A failure keeps the changes made so far. -/
abbrev InPlace (α : Type) := ExceptT Failure (StateT Store Logged) α

namespace InPlace

variable {α β : Type}

/-! ## The programs -/

/-- Something happens. -/
def report (e : Event) : InPlace Unit :=
  ExceptT.lift (StateT.lift (Logged.report e))

/-- Appends samples to a partition. -/
def append (p : Partition) (new : List Sample) : InPlace Unit :=
  ExceptT.lift (modify fun s => s.append p new)

/-- A result that may be a failure. -/
def ofExcept : Except Failure α → InPlace α
  | .ok a => pure a
  | .error e => throw e

/-- Appends groups of samples one after the other, and counts the samples. -/
def appendGroups : List (Partition × List Sample) → InPlace Nat
  | [] => return 0
  | (p, samples) :: rest => do
    report (.samplesIngested samples.length p)
    append p samples
    let count ← appendGroups rest
    return samples.length + count

/-- Takes in a document. -/
def ingest (d : Intake) : InPlace Nat := do
  d.unknownKeys.forM fun key => report (.keySkipped key)
  let groups ← ofExcept d.complete
  appendGroups groups

/-- Takes in a text. -/
def ingestText (text : String) : InPlace Nat := do
  let d ← ofExcept ((Intake.ofString text).mapError .malformedDocument)
  ingest d

/-- Takes in a file, of which this is the content or the reason that there is none. -/
def ingestRead (path : String) (content : Except FileError String) : InPlace Nat := do
  let text ← ofExcept (content.mapError (.file path))
  let count ← ingestText text
  report (.samplesLoaded count path)
  return count

/-! ## Running them -/

/-- The result of a program, and the store it leaves behind. -/
def outcome (x : InPlace α) (s : Store) : Logged (Except Failure α × Store) :=
  x.run.run s

@[simp] theorem outcome_pure (a : α) (s : Store) :
    (pure a : InPlace α).outcome s = pure (.ok a, s) :=
  rfl

theorem outcome_bind (x : InPlace α) (f : α → InPlace β) (s : Store) :
    (x >>= f).outcome s = x.outcome s >>= fun r =>
      match r.1 with
      | .ok a => (f a).outcome r.2
      | .error e => pure (.error e, r.2) := by
  unfold outcome
  show (x.run.run s >>= fun r => (ExceptT.bindCont f r.1).run r.2) = _
  congr 1
  funext r
  rcases r with ⟨_ | a, s'⟩ <;> rfl

@[simp] theorem outcome_report (e : Event) (s : Store) :
    (report e).outcome s = ⟨(.ok (), s), [e]⟩ :=
  rfl

@[simp] theorem outcome_append (p : Partition) (new : List Sample) (s : Store) :
    (append p new).outcome s = pure (.ok (), s.append p new) :=
  rfl

@[simp] theorem outcome_ofExcept (r : Except Failure α) (s : Store) :
    (ofExcept r).outcome s = pure (r, s) := by
  cases r <;> rfl

/-- A walk over a list that only reports leaves the store as it is. -/
theorem outcome_forM_report (f : α → Event) (xs : List α) (s : Store) :
    (forM xs fun a => report (f a)).outcome s = ⟨(.ok (), s), xs.map f⟩ := by
  induction xs with
  | nil => rfl
  | cons a rest ih =>
    rw [List.forM_cons, outcome_bind, outcome_report]
    apply Logged.ext
    · rw [Logged.value_bind, ih]
    · rw [Logged.events_bind, ih, List.map_cons, List.singleton_append]

/-- The groups end up in the store, and every sample is counted. -/
theorem outcome_appendGroups (groups : List (Partition × List Sample)) (s : Store) :
    (appendGroups groups).outcome s =
      ⟨(.ok (Store.countAll groups), s.appendAll groups),
        groups.map fun g => .samplesIngested g.2.length g.1⟩ := by
  induction groups generalizing s with
  | nil => rfl
  | cons g rest ih =>
    obtain ⟨p, samples⟩ := g
    simp only [appendGroups, outcome_bind, outcome_report, outcome_append]
    apply Logged.ext
    · simp [ih, Store.countAll, Store.appendAll]
    · simp [ih]

/-! ## They do what the functions of the store say -/

/-- What a caller who keeps one store makes of an answer: the new store, or after a failure the
old one. -/
def settle (s : Store) : Except Failure (Nat × Store) → Except Failure Nat × Store
  | .error e => (.error e, s)
  | .ok (n, s') => (.ok n, s')

/-- **Taking a document in place leaves behind what `Store.ingest` answers.** -/
theorem outcome_ingest (s : Store) (d : Intake) :
    (ingest d).outcome s = settle s <$> s.ingest d := by
  unfold ingest Store.ingest
  rw [List.forM_eq_forM, outcome_bind, outcome_forM_report]
  cases d.complete with
  | error e =>
    apply Logged.ext
    · rfl
    · simp [outcome_bind]
  | ok groups =>
    apply Logged.ext
    · simp [outcome_bind, outcome_appendGroups, settle]
    · simp [outcome_bind, outcome_appendGroups]

/-- The same for a text. -/
theorem outcome_ingestText (s : Store) (text : String) :
    (ingestText text).outcome s = settle s <$> s.ingestText text := by
  unfold ingestText Store.ingestText
  cases Intake.ofString text with
  | error e => rfl
  | ok d =>
    show (ofExcept (.ok d) >>= ingest).outcome s = _
    rw [outcome_bind, outcome_ofExcept, ← outcome_ingest]
    rfl

/-- The answer of a study, as one about its store. -/
def storeOf : Except Failure (Nat × Study) → Except Failure (Nat × Store)
  | .error e => .error e
  | .ok (n, st) => .ok (n, st.store)

/-- The same for a file. -/
theorem outcome_ingestRead (st : Study) (path : String) (content : Except FileError String) :
    (ingestRead path content).outcome st.store =
      (settle st.store ∘ storeOf) <$> st.ingestRead path content := by
  unfold ingestRead Study.ingestRead
  cases content with
  | error e => rfl
  | ok text =>
    show (ingestText text >>= fun count => report (.samplesLoaded count path) >>= fun _ =>
      pure count).outcome st.store = _
    rw [outcome_bind, outcome_ingestText]
    simp only [Study.ingestText]
    generalize st.store.ingestText text = answer
    obtain ⟨_ | ⟨n, s'⟩, events⟩ := answer
    · apply Logged.ext
      · rfl
      · simp [settle]
    · apply Logged.ext
      · rfl
      · simp [settle, outcome_bind, -bind_pure_comp]

end InPlace
end TransferCost
