import TransferCost.Proofs.Intake

/-!
# The grid of simulated samples, one sample at a time

`Store.simulate` computes the new samples of each partition as a list of its own, and appends the
four lists.  A simulation that runs in place goes another way: it walks over the amounts, and at
each amount over the partitions, and it pushes one sample at a time and counts up.

`InPlace.outcome_populate` says that both leave the same store behind and give the same number.  The
order in which the partitions are visited does not matter, as long as each is visited once
(`flatMap_own`); the order of the amounts is the order of the samples.
-/

namespace TransferCost

open Intake (samplesFor)

/-- Stores with the same samples are the same. -/
theorem Store.ext_samples {s s' : Store} (h : ∀ p, s.samples p = s'.samples p) : s = s' :=
  congrArg Store.mk (PerPartition.ext_get h)

/-- In a row where each partition stands once, a partition finds its own list. -/
theorem flatMap_own {ps : List Partition} (hps : ps.Nodup) {p : Partition} (hp : p ∈ ps)
    (f : Partition → List Sample) : (ps.flatMap fun q => if p = q then f q else []) = f p := by
  induction ps with
  | nil => exact absurd hp List.not_mem_nil
  | cons q ps ih =>
    obtain ⟨hq, hps⟩ := List.nodup_cons.mp hps
    rw [List.flatMap_cons]
    rcases List.mem_cons.mp hp with rfl | hp
    · have hrest : (ps.flatMap fun q => if p = q then f q else []) = [] := by
        rw [List.flatMap_eq_nil_iff]
        intro q hmem
        exact if_neg fun h : p = q => hq (h ▸ hmem)
      rw [if_pos rfl, hrest, List.append_nil]
    · rw [if_neg fun h : p = q => hq (h ▸ hp), List.nil_append, ih hps hp]

/-- The partitions in the order in which they are visited at each amount. -/
def Partition.visited : List Partition :=
  TransferType.all.flatMap fun t =>
    [.unoptimized, .optimized].map fun o => ⟨o, t⟩

theorem Partition.nodup_visited : visited.Nodup := by
  decide

theorem Partition.mem_visited (p : Partition) : p ∈ visited := by
  rcases p with ⟨o, t⟩
  cases o <;> cases t <;> decide

/-- The simulated samples of one partition. -/
def SizeRange.samples (range : SizeRange) (model : CostModel) (p : Partition) : List Sample :=
  range.amounts.map fun amount => model.simulate amount p (range.recipients p.transferType)

/-- The simulated samples in the order in which they are made. -/
def SizeRange.grid (range : SizeRange) (model : CostModel) : List (Partition × Sample) :=
  range.amounts.flatMap fun amount =>
    Partition.visited.map fun p =>
      (p, model.simulate amount p (range.recipients p.transferType))

namespace InPlace

/-- Pushes one sample after the other, and counts on. -/
def pushEach (added : ℕ) : List (Partition × Sample) → InPlace ℕ
  | [] => return added
  | (p, x) :: rest => do
    append p [x]
    pushEach (added + 1) rest

/-- Pushes the simulated samples. -/
def populate (range : SizeRange) (model : CostModel) : InPlace ℕ := do
  let added ← pushEach 0 (range.grid model)
  report (.samplesGenerated added range.steps)
  return added

/-- A sample that is pushed is a group of its own. -/
theorem outcome_pushEach (xs : List (Partition × Sample)) (added : ℕ) (s : Store) :
    (pushEach added xs).outcome s =
      pure (.ok (added + xs.length), s.appendAll (xs.map fun e => (e.1, [e.2]))) := by
  induction xs generalizing added s with
  | nil => rfl
  | cons e rest ih =>
    obtain ⟨p, x⟩ := e
    have hcount : added + 1 + rest.length = added + ((p, x) :: rest).length := by
      rw [List.length_cons]
      omega
    rw [pushEach, outcome_bind, outcome_append, pure_bind]
    dsimp only
    rw [ih, hcount]
    rfl

end InPlace

/-- What the pushes hold for a partition: one sample for each amount. -/
theorem samplesFor_grid (range : SizeRange) (model : CostModel) (p : Partition) :
    samplesFor ((range.grid model).map fun e => (e.1, [e.2])) p = range.samples model p := by
  have hown (amount : Float) := flatMap_own Partition.nodup_visited p.mem_visited
    fun q => [model.simulate amount q (range.recipients q.transferType)]
  unfold samplesFor SizeRange.grid SizeRange.samples
  simp only [List.flatMap_map, List.flatMap_assoc, hown]
  exact List.map_eq_flatMap.symm

theorem length_grid (range : SizeRange) (model : CostModel) :
    (range.grid model).length = 4 * range.amounts.length := by
  unfold SizeRange.grid
  induction range.amounts with
  | nil => rfl
  | cons amount rest ih =>
    rw [List.flatMap_cons, List.length_append, ih, List.length_map, List.length_cons]
    show 4 + 4 * rest.length = _
    omega

/-- The simulated samples as groups, one for each partition. -/
def SizeRange.groups (range : SizeRange) (model : CostModel) : List (Partition × List Sample) :=
  Partition.all.map fun p => (p, range.samples model p)

theorem samplesFor_groups (range : SizeRange) (model : CostModel) (p : Partition) :
    samplesFor (range.groups model) p = range.samples model p := by
  unfold samplesFor SizeRange.groups
  rw [List.flatMap_map]
  exact flatMap_own Intake.nodup_all p.mem_all (range.samples model)

theorem countAll_groups (range : SizeRange) (model : CostModel) :
    Store.countAll (range.groups model) = (range.grid model).length := by
  have hsum : Store.countAll (range.groups model) = range.amounts.length +
      (range.amounts.length + (range.amounts.length + (range.amounts.length + 0))) := by
    simp [SizeRange.groups, Store.countAll, SizeRange.samples, Partition.all, TransferType.all,
      Optimization.all, sumOfCounts]
  rw [hsum, length_grid]
  omega

/-- **A simulation in place leaves behind what `Store.simulate` answers.** -/
theorem InPlace.outcome_populate (range : SizeRange) (model : CostModel) (s : Store) :
    (populate range model).outcome s =
      (fun r => (.ok r.1, r.2)) <$> s.simulate range model := by
  have hstore : s.appendAll ((range.grid model).map fun e => (e.1, [e.2])) =
      s.appendAll (range.groups model) := by
    apply Store.ext_samples
    intro p
    rw [Store.samples_appendAll, Store.samples_appendAll, samplesFor_grid, samplesFor_groups]
  show (pushEach 0 (range.grid model) >>= fun added =>
    report (.samplesGenerated added range.steps) >>= fun _ => pure added).outcome s = _
  rw [outcome_bind, outcome_pushEach, hstore, Nat.zero_add, ← countAll_groups]
  rfl

end TransferCost
