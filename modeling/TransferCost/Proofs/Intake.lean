import Mathlib.Data.List.Nodup
import TransferCost.Proofs.InPlace

/-!
# A document is taken in as a whole or not at all

A document may have any of its four groups missing, and bad records in any of the others.  This file
says what becomes of a store that is changed in place while such a document is taken in.

## 1.  What a bad record is

A record that completes `IsSample`.  `FirstBad rs i defect` says that the record at index `i` of a
list does not, and that all records in front of it do.  `Intake.FirstDefect` says the same of a
whole document, where the partitions are walked in the order of `Partition.all_eq`.  A document has
only one first defect: `Intake.FirstDefect.unique`.

## 2.  The staging pass finds it

`completeFrom_cases` and `staged_completeGroups` follow the two recursions of the staging pass.
Each ends in one of two ways: everything completes, or the first defect is named.  `Staged` is what
the second one keeps from partition to partition.

## 3.  What is left behind

`samples_appendAll` reads the store after the groups are appended.  Since a partition occurs once in
`Partition.all`, each partition grows by its own group.  `ingest_all_or_nothing` joins the three.
-/

namespace TransferCost

/-! ## 1.  Bad records -/

/-- The record describes a sample. -/
def Record.IsSample (r : Record) : Prop :=
  ∃ x, r.complete = .ok x

/-- The record at index `i` is the first that is no sample, and this is its defect. -/
structure FirstBad (rs : List Record) (i : Nat) (defect : Defect) : Prop where
  bad : ∃ r, rs[i]? = some r ∧ r.complete = .error defect
  before : ∀ r ∈ rs.take i, r.IsSample

theorem FirstBad.head {r : Record} {defect : Defect} (rest : List Record)
    (h : r.complete = .error defect) : FirstBad (r :: rest) 0 defect where
  bad := ⟨r, rfl, h⟩
  before := by simp

theorem FirstBad.cons {r : Record} {rest : List Record} {i : Nat} {defect : Defect}
    (hr : r.IsSample) (h : FirstBad rest i defect) : FirstBad (r :: rest) (i + 1) defect where
  bad := by
    obtain ⟨r', hget, herr⟩ := h.bad
    exact ⟨r', by rw [List.getElem?_cons_succ, hget], herr⟩
  before := by
    intro r' hr'
    rw [List.take_succ_cons, List.mem_cons] at hr'
    rcases hr' with rfl | hr'
    · exact hr
    · exact h.before r' hr'

theorem FirstBad.exists_not_isSample {rs : List Record} {i : Nat} {defect : Defect}
    (h : FirstBad rs i defect) : ∃ r ∈ rs, ¬ r.IsSample := by
  obtain ⟨r, hget, herr⟩ := h.bad
  refine ⟨r, List.mem_of_getElem? hget, ?_⟩
  rintro ⟨x, hx⟩
  rw [herr] at hx
  exact absurd hx (by simp)

theorem FirstBad.le {rs : List Record} {i j : Nat} {defect defect' : Defect}
    (h : FirstBad rs i defect) (h' : FirstBad rs j defect') : i ≤ j := by
  by_contra hlt
  obtain ⟨r, hget, herr⟩ := h'.bad
  have hmem : r ∈ rs.take i :=
    List.mem_of_getElem? (i := j) (by rw [List.getElem?_take_of_lt (by omega), hget])
  obtain ⟨x, hx⟩ := h.before r hmem
  exact absurd (hx.symm.trans herr) (by simp)

/-- Only one record of a list is the first bad one. -/
theorem FirstBad.unique {rs : List Record} {i j : Nat} {defect defect' : Defect}
    (h : FirstBad rs i defect) (h' : FirstBad rs j defect') : i = j ∧ defect = defect' := by
  have hij : i = j := Nat.le_antisymm (h.le h') (h'.le h)
  subst hij
  obtain ⟨r, hget, herr⟩ := h.bad
  obtain ⟨r', hget', herr'⟩ := h'.bad
  rw [hget, Option.some.injEq] at hget'
  subst hget'
  rw [herr, Except.error.injEq] at herr'
  exact ⟨rfl, herr'⟩

namespace Intake

/-- The records of a partition.  A missing group has none. -/
def recordsOf (d : Intake) (p : Partition) : List Record :=
  (d.records? p).getD []

/-- The number of records. -/
def recordCount (d : Intake) : Nat :=
  sumOfCounts (Partition.all.map fun p => (d.recordsOf p).length)

/-- Partition `q` stands before partition `p` in the row of the four, which is the one of
`Partition.all_eq`. -/
def Precedes (q p : Partition) : Prop :=
  ∃ front back, Partition.all = front ++ p :: back ∧ q ∈ front

/-- The first bad record of a document stands at index `i` of partition `p`: the records of all
partitions before `p`, in the order of `Partition.all_eq`, are samples. -/
structure FirstDefect (d : Intake) (p : Partition) (i : Nat) (defect : Defect) : Prop where
  here : FirstBad (d.recordsOf p) i defect
  earlier : ∀ q, Precedes q p → ∀ r ∈ d.recordsOf q, r.IsSample

theorem nodup_all : Partition.all.Nodup := by
  rw [Partition.all_eq]
  decide

/-- A partition stands only once in the row, so it has one front. -/
theorem Precedes.mem_front {front back : List Partition} {p q : Partition} (h : Precedes q p)
    (split : Partition.all = front ++ p :: back) : q ∈ front := by
  obtain ⟨front', back', split', hq⟩ := h
  have hnodup : (front ++ p :: back).Nodup := split ▸ nodup_all
  have hout := (List.nodup_cons.mp (List.nodup_middle.mp hnodup)).1
  rw [List.mem_append, not_or] at hout
  have hfronts := (List.append_cons_inj_of_notMem hout.1 hout.2).mp (split.symm.trans split')
  exact hfronts.1 ▸ hq

/-- Of two partitions one stands before the other. -/
theorem Precedes.total {p q : Partition} (h : p ≠ q) : Precedes p q ∨ Precedes q p := by
  obtain ⟨front, back, hsplit⟩ := List.append_of_mem p.mem_all
  have hq := q.mem_all
  rw [hsplit, List.mem_append, List.mem_cons] at hq
  rcases hq with hq | rfl | hq
  · exact .inr ⟨front, back, hsplit, hq⟩
  · exact absurd rfl h
  · obtain ⟨middle, rest, rfl⟩ := List.append_of_mem hq
    refine .inl ⟨front ++ p :: middle, rest, ?_, by simp⟩
    rw [hsplit, List.append_assoc, List.cons_append]

/-- A partition with a bad record does not stand before that of the first defect. -/
theorem FirstDefect.not_precedes {d : Intake} {p q : Partition} {i j : Nat}
    {defect defect' : Defect} (h : d.FirstDefect p i defect)
    (hbad : FirstBad (d.recordsOf q) j defect') : ¬ Precedes q p := by
  intro hq
  obtain ⟨r, hr, hnot⟩ := hbad.exists_not_isSample
  exact hnot (h.earlier q hq r hr)

/-- **A document has only one first defect.** -/
theorem FirstDefect.unique {d : Intake} {p q : Partition} {i j : Nat} {defect defect' : Defect}
    (h : d.FirstDefect p i defect) (h' : d.FirstDefect q j defect') :
    p = q ∧ i = j ∧ defect = defect' := by
  by_cases hpq : p = q
  · subst hpq
    exact ⟨rfl, h.here.unique h'.here⟩
  · rcases Precedes.total hpq with hp | hq
    · exact absurd hp (h'.not_precedes h.here)
    · exact absurd hq (h.not_precedes h'.here)

/-! ## 2.  The staging pass -/

/-- The records of one group: all of them complete, or the first bad one is named. -/
theorem completeFrom_cases (p : Partition) (start : Nat) (rs : List Record) :
    (∃ xs, completeFrom p start rs = .ok xs ∧ rs.map Record.complete = xs.map .ok) ∨
      ∃ i defect, FirstBad rs i defect ∧
        completeFrom p start rs = .error (.malformedSample p (start + i) defect) := by
  induction rs generalizing start with
  | nil => exact .inl ⟨[], rfl, rfl⟩
  | cons r rest ih =>
    cases hr : r.complete with
    | error defect =>
      refine .inr ⟨0, defect, .head rest hr, ?_⟩
      simp [completeFrom, hr]
    | ok x =>
      rcases ih (start + 1) with ⟨xs, hxs, hmap⟩ | ⟨i, defect, hbad, herr⟩
      · refine .inl ⟨x :: xs, ?_, ?_⟩
        · simp only [completeFrom, hr, hxs]
          rfl
        · rw [List.map_cons, List.map_cons, hr, hmap]
      · refine .inr ⟨i + 1, defect, hbad.cons ⟨x, hr⟩, ?_⟩
        have hindex : start + (i + 1) = start + 1 + i := by omega
        simp only [completeFrom, hr, herr, hindex]
        rfl

/-- The groups of some partitions. -/
def groupsAmong (d : Intake) (ps : List Partition) : List (Partition × List Record) :=
  ps.filterMap fun p => (d.records? p).map (p, ·)

/-- The samples that groups hold for a partition. -/
def samplesFor (groups : List (Partition × List Sample)) (p : Partition) : List Sample :=
  groups.flatMap fun g => if p = g.1 then g.2 else []

theorem samplesFor_cons (q : Partition) (xs : List Sample) (rest : List (Partition × List Sample))
    (p : Partition) :
    samplesFor ((q, xs) :: rest) p = (if p = q then xs else []) ++ samplesFor rest p :=
  rfl

/-- What the staging pass may answer for the groups of some partitions. -/
inductive Staged (d : Intake) (ps : List Partition) :
    Except Failure (List (Partition × List Sample)) → Prop where
  /-- All records complete, and each partition gets the samples of its own records. -/
  | done (out : List (Partition × List Sample))
      (count : Store.countAll out = sumOfCounts (ps.map fun p => (d.recordsOf p).length))
      (own : ∀ p, (samplesFor out p).map .ok =
        if p ∈ ps then (d.recordsOf p).map Record.complete else []) : Staged d ps (.ok out)
  /-- The first bad record of the first bad partition is named. -/
  | stopped (front : List Partition) (p : Partition) (back : List Partition) (i : Nat)
      (defect : Defect) (split : ps = front ++ p :: back)
      (good : ∀ q ∈ front, ∀ r ∈ d.recordsOf q, r.IsSample)
      (bad : FirstBad (d.recordsOf p) i defect) :
      Staged d ps (.error (.malformedSample p i defect))

variable {d : Intake} {p : Partition} {rest : List Partition}

/-- A defect further on is the first one if the records of the partition in front are samples. -/
theorem Staged.stopped_cons {e : Failure} (hp : ∀ r ∈ d.recordsOf p, r.IsSample)
    (h : Staged d rest (.error e)) : Staged d (p :: rest) (.error e) := by
  obtain _ | ⟨front, q, back, i, defect, split, good, bad⟩ := h
  refine .stopped (p :: front) q back i defect (by rw [split, List.cons_append]) ?_ bad
  intro q' hq'
  rcases List.mem_cons.mp hq' with rfl | hq'
  · exact hp
  · exact good q' hq'

/-- A partition without records adds nothing. -/
theorem Staged.skip {answer : Except Failure (List (Partition × List Sample))}
    (hp : d.recordsOf p = []) (h : Staged d rest answer) : Staged d (p :: rest) answer := by
  cases h with
  | done out count own =>
    refine .done out ?_ ?_
    · rw [List.map_cons, sumOfCounts_cons, hp, count, List.length_nil, Nat.zero_add]
    · intro p'
      rw [own p']
      by_cases hpp : p' = p
      · subst hpp
        simp [hp]
      · simp [hpp]
  | stopped front q back i defect split good bad =>
    exact .stopped_cons (by simp [hp]) (.stopped front q back i defect split good bad)

/-- A partition whose records are samples adds these samples, if it does not come again. -/
theorem Staged.keep {xs : List Sample} {out : List (Partition × List Sample)} (hp : p ∉ rest)
    (hxs : (d.recordsOf p).map Record.complete = xs.map .ok) (h : Staged d rest (.ok out)) :
    Staged d (p :: rest) (.ok ((p, xs) :: out)) := by
  obtain ⟨_, count, own⟩ := h
  have hlen : (d.recordsOf p).length = xs.length := by
    rw [← List.length_map Record.complete, hxs, List.length_map]
  refine .done _ ?_ ?_
  · rw [List.map_cons, sumOfCounts_cons, ← count, hlen]
    rfl
  · intro p'
    rw [samplesFor_cons, List.map_append, own p']
    by_cases hpp : p' = p
    · subst hpp
      simp [hp, hxs]
    · simp [hpp]

theorem isSample_of_map_complete {rs : List Record} {xs : List Sample}
    (h : rs.map Record.complete = xs.map .ok) : ∀ r ∈ rs, r.IsSample := by
  intro r hr
  have hmem : r.complete ∈ xs.map Except.ok := h ▸ List.mem_map_of_mem hr
  obtain ⟨x, -, hx⟩ := List.mem_map.mp hmem
  exact ⟨x, hx.symm⟩

/-- **The staging pass** over partitions of which none comes twice. -/
theorem staged_completeGroups (d : Intake) (ps : List Partition) (hps : ps.Nodup) :
    Staged d ps (completeGroups (d.groupsAmong ps)) := by
  induction ps with
  | nil => exact .done [] rfl fun _ => rfl
  | cons p rest ih =>
    obtain ⟨hp, hrest⟩ := List.nodup_cons.mp hps
    have hstaged := ih hrest
    cases hd : d.records? p with
    | none =>
      have hgroups : d.groupsAmong (p :: rest) = d.groupsAmong rest := by
        simp [groupsAmong, hd]
      rw [hgroups]
      exact hstaged.skip (by simp [recordsOf, hd])
    | some rs =>
      have hgroups : d.groupsAmong (p :: rest) = (p, rs) :: d.groupsAmong rest := by
        simp [groupsAmong, hd]
      have hrs : d.recordsOf p = rs := by
        simp [recordsOf, hd]
      rw [hgroups, completeGroups]
      rcases completeFrom_cases p 0 rs with ⟨xs, hxs, hmap⟩ | ⟨i, defect, hbad, herr⟩
      · rw [hxs]
        rw [← hrs] at hmap
        cases hout : completeGroups (d.groupsAmong rest) with
        | error e => exact .stopped_cons (isSample_of_map_complete hmap) (hout ▸ hstaged)
        | ok out => exact .keep hp hmap (hout ▸ hstaged)
      · rw [herr, Nat.zero_add]
        exact .stopped [] p rest i defect rfl (by simp) (hrs ▸ hbad)

end Intake

/-! ## 3.  What is left behind -/

open Intake (samplesFor)

/-- A partition grows by what the groups hold for it. -/
theorem Store.samples_appendAll (groups : List (Partition × List Sample)) (s : Store)
    (p : Partition) : (s.appendAll groups).samples p = s.samples p ++ samplesFor groups p := by
  induction groups generalizing s with
  | nil => simp [appendAll, samplesFor]
  | cons g rest ih =>
    obtain ⟨q, xs⟩ := g
    have hcons : s.appendAll ((q, xs) :: rest) = (s.append q xs).appendAll rest := rfl
    rw [hcons, ih, Store.samples_append, Intake.samplesFor_cons, List.append_assoc]

namespace Intake

/-- A document all of whose records are samples. -/
def IsSound (d : Intake) : Prop :=
  ∀ p, ∀ r ∈ d.recordsOf p, r.IsSample

/-- A sound document is completed, and each partition gets the samples of its own records. -/
theorem complete_of_isSound {d : Intake} (h : d.IsSound) :
    ∃ out, d.complete = .ok out ∧ Store.countAll out = d.recordCount ∧
      ∀ p, (samplesFor out p).map .ok = (d.recordsOf p).map Record.complete := by
  have hstaged : Staged d Partition.all d.complete := staged_completeGroups d _ nodup_all
  generalize d.complete = answer at hstaged ⊢
  cases hstaged with
  | done out count own =>
    refine ⟨out, rfl, count, ?_⟩
    intro p
    rw [own p, if_pos p.mem_all]
  | stopped front p back i defect split good bad =>
    obtain ⟨r, hr, hnot⟩ := bad.exists_not_isSample
    exact absurd (h p r hr) hnot

/-- A document that is not sound is refused with its first defect. -/
theorem complete_of_not_isSound {d : Intake} (h : ¬ d.IsSound) :
    ∃ p i defect, d.FirstDefect p i defect ∧
      d.complete = .error (.malformedSample p i defect) := by
  have hstaged : Staged d Partition.all d.complete := staged_completeGroups d _ nodup_all
  generalize d.complete = answer at hstaged ⊢
  cases hstaged with
  | done out count own =>
    have hmap (p : Partition) :
        (d.recordsOf p).map Record.complete = (samplesFor out p).map .ok := by
      rw [own p, if_pos p.mem_all]
    exact absurd (fun p => isSample_of_map_complete (hmap p)) h
  | stopped front p back i defect split good bad =>
    exact ⟨p, i, defect, ⟨bad, fun q hq => good q (hq.mem_front split)⟩, rfl⟩

end Intake

/-! ## Failures change nothing -/

/-- What `settle` makes of a failure is the store from before. -/
theorem InPlace.settle_error {s s' : Store} {answer : Except Failure (Nat × Store)} {e : Failure}
    (h : InPlace.settle s answer = (.error e, s')) : s' = s := by
  rcases answer with e' | ⟨n, t⟩
  · exact (congrArg Prod.snd h).symm
  · exact absurd (congrArg Prod.fst h) (by simp [InPlace.settle])

/-- **A store takes in a document as a whole or not at all.**  If every record is a sample, each
partition grows by the samples of its records, in the order of the document, and their number is
answered.  Otherwise the first bad record is named and the store is what it was.  No failure of a
text or of a file changes the store either. -/
theorem ingest_all_or_nothing (s : Store) (d : Intake) :
    (d.IsSound → ∃ s', ((InPlace.ingest d).outcome s).value = (.ok d.recordCount, s') ∧
      ∀ p, ∃ new, (d.recordsOf p).map Record.complete = new.map .ok ∧
        s'.samples p = s.samples p ++ new) ∧
    (¬ d.IsSound → ∃ p i defect, d.FirstDefect p i defect ∧
      ((InPlace.ingest d).outcome s).value = (.error (.malformedSample p i defect), s)) ∧
    (∀ text e s', ((InPlace.ingestText text).outcome s).value = (.error e, s') → s' = s) ∧
    (∀ path content e s',
      ((InPlace.ingestRead path content).outcome s).value = (.error e, s') → s' = s) := by
  have hvalue : ((InPlace.ingest d).outcome s).value = InPlace.settle s (s.ingest d).value := by
    rw [InPlace.outcome_ingest, Logged.value_map]
  refine ⟨?_, ?_, ?_, ?_⟩
  · intro h
    obtain ⟨out, hout, hcount, hfor⟩ := Intake.complete_of_isSound h
    refine ⟨s.appendAll out, ?_, ?_⟩
    · rw [hvalue, Store.ingest, hout, ← hcount]
      rfl
    · intro p
      exact ⟨samplesFor out p, (hfor p).symm, Store.samples_appendAll out s p⟩
  · intro h
    obtain ⟨p, i, defect, hfirst, herr⟩ := Intake.complete_of_not_isSound h
    refine ⟨p, i, defect, hfirst, ?_⟩
    rw [hvalue, Store.ingest, herr]
    rfl
  · intro text e s' h
    rw [InPlace.outcome_ingestText, Logged.value_map] at h
    exact InPlace.settle_error h
  · intro path content e s' h
    have hread := InPlace.outcome_ingestRead ⟨.standard, s⟩ path content
    rw [hread, Logged.value_map] at h
    exact InPlace.settle_error h

/-- A record with nothing but the fields that have to be there. -/
def bareRecord : Record where
  amount := some 1000.0
  recipientCount := some 1
  receivedAmount := some 980.0
  breakdown := some ⟨some 5.0, none, none, none⟩

/-- A document whose last record has no amount, behind one in the same group that is a sample. -/
def lateDefect : Intake :=
  ⟨⟨none, some ⟨⟨some [bareRecord],
    some [bareRecord, { bareRecord with amount := none }]⟩, []⟩⟩, []⟩

/-- The first bad record of `lateDefect` is the second one of the unoptimized transfers to many
wallets. -/
theorem lateDefect_firstDefect :
    lateDefect.FirstDefect ⟨.unoptimized, .multiWallet⟩ 1 (.missingField "amount") where
  here := .cons ⟨_, rfl⟩ (.head [] rfl)
  earlier q hq := by
    have hsplit : Partition.all = [⟨.optimized, .singleRecipient⟩, ⟨.unoptimized, .singleRecipient⟩,
        ⟨.optimized, .multiWallet⟩] ++ ⟨.unoptimized, .multiWallet⟩ :: [] := rfl
    have hfront := hq.mem_front hsplit
    simp only [List.mem_cons, List.not_mem_nil, or_false] at hfront
    rcases hfront with rfl | rfl | rfl
    · exact List.forall_mem_nil _
    · exact List.forall_mem_nil _
    · exact List.forall_mem_singleton.mpr ⟨_, rfl⟩

/-- The good records of `lateDefect` are not taken in, and its first defect is answered. -/
theorem ingest_all_or_nothing_late_defect :
    (∃ x, bareRecord.complete = .ok x) ∧ ¬ lateDefect.IsSound ∧
      lateDefect.FirstDefect ⟨.unoptimized, .multiWallet⟩ 1 (.missingField "amount") ∧
      ((InPlace.ingest lateDefect).outcome .empty).value =
        (.error (.malformedSample ⟨.unoptimized, .multiWallet⟩ 1 (.missingField "amount")),
          .empty) := by
  have hfirst := lateDefect_firstDefect
  have hbad : ¬ lateDefect.IsSound := by
    intro h
    obtain ⟨r, hr, hnot⟩ := hfirst.here.exists_not_isSample
    exact hnot (h _ r hr)
  obtain ⟨p, i, defect, hfirst', hvalue⟩ := (ingest_all_or_nothing .empty lateDefect).2.1 hbad
  obtain ⟨rfl, rfl, rfl⟩ := hfirst.unique hfirst'
  exact ⟨⟨_, rfl⟩, hbad, hfirst, hvalue⟩

end TransferCost
