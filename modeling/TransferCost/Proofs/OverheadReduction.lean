import TransferCost.Proofs.Omissions
import TransferCost.Proofs.StandardResidual

/-!
# The overhead of simulated transfers

A share of the cost counts as zero if its mean is not above the tolerance of samples.  That is meant
to keep the rounding noise of simulated overheads out of an analysis, and it does so as long as the
noise is below the tolerance.  The tolerance is absolute, though, and the noise grows with the cost
of a transfer.

All simulated samples of a partition have the same overhead, so the mean is one of equal numbers
(`Study.overheads_simulated`), and `Study.overhead_of_simulated` says when there is a reduction.
-/

namespace TransferCost

open Binary64

/-- The reduction of the overhead of a transfer type in an analysis. -/
def Analysis.overheadReduction (a : Analysis) (t : TransferType) : Option Float :=
  (a.types.get t).improvement.reductionOfKind.get .overhead

namespace Study

variable {settings : Settings} {k : ℕ}

/-- All samples of a simulated partition have the same overhead. -/
theorem overheads_simulated (settings : Settings) (k : ℕ) (p : Partition) :
    ((simulated settings k).store.samples p).map (·.breakdown.get .overhead) =
      List.replicate (k * settings.range.steps) (settings.model.sharesOf p.optimization
        (settings.range.recipients p.transferType)).overhead := by
  have hgrid : (settings.range.samples settings.model p).map (·.breakdown.get .overhead) =
      List.replicate settings.range.steps (settings.model.sharesOf p.optimization
        (settings.range.recipients p.transferType)).overhead := by
    rw [SizeRange.samples, List.map_map, ← SizeRange.length_amounts]
    exact List.map_const'
  rw [samples_simulated, List.map_flatten, List.map_replicate, hgrid,
    List.flatten_replicate_replicate]

/-- **When an analysis of simulated samples has a reduction of the overhead.**  For any settings,
and for any number of simulations, a transfer type has one if and only if the tolerance is below the
mean of as many copies of the unoptimized residual as there are samples.  If the cost model is the
default one, transfers to single recipients have none, and transfers to fewer than 34351575 wallets
have none either. -/
theorem overhead_of_simulated {a : Analysis}
    (ha : ((simulated settings k).perform .analyze).1 = .ok (.analyzed a)) :
    (∀ t, (a.overheadReduction t).isSome = true ↔
      tolerance < mean (List.replicate (k * settings.range.steps)
        (settings.model.sharesOf .unoptimized (settings.range.recipients t)).overhead)) ∧
    (settings.model = .standard → a.overheadReduction .singleRecipient = none ∧
      (settings.range.wallets < 34351575 → a.overheadReduction .multiWallet = none)) := by
  rw [perform_analyze_eq_ok_iff, settings_simulated] at ha
  have henough := holdsEnough_simulated_iff.mp (Analysis.exists_ok_iff.mp ⟨a, ha⟩)
  obtain rfl := (Analysis.of_ok ha).2
  have hiff (t : TransferType) :
      ((Analysis.ofSufficient (simulated settings k).store).value.overheadReduction t).isSome =
          true ↔
        tolerance < mean (List.replicate (k * settings.range.steps)
          (settings.model.sharesOf .unoptimized (settings.range.recipients t)).overhead) := by
    have homitted := Analysis.mem_omitted_iff (s := (simulated settings k).store)
      (m := .share t .overhead)
    rw [Analysis.omitted, mem_missing, Analysis.mem_metrics_share] at homitted
    rw [← overheads_simulated settings k ⟨.unoptimized, t⟩, Option.isSome_iff_ne_none, ne_eq,
      Analysis.overheadReduction, homitted]
    exact (not_congr (iff_of_eq (true_and _))).trans not_not
  refine ⟨hiff, ?_⟩
  intro hmodel
  have hnone (t : TransferType) (hr : (settings.range.recipients t).toNat < 34351575) :
      (Analysis.ofSufficient (simulated settings k).store).value.overheadReduction t = none := by
    rw [← Option.not_isSome_iff_eq_none, hiff, hmodel]
    exact not_tolerance_lt_mean_overhead hr (by omega)
  refine ⟨hnone .singleRecipient (by change (1 : UInt32).toNat < _; decide), ?_⟩
  intro hwallets
  exact hnone .multiWallet (UInt32.lt_iff_toNat_lt.mp hwallets)

end Study

/-- The default settings with few sizes, and with the least number of wallets at which the residual
counts. -/
def Settings.manyWallets : Settings :=
  { standard with range := { SizeRange.small with wallets := 34351575 } }

/-- They pass the check and simulate valid samples only, and the residual has a reduction. -/
theorem Study.overhead_of_simulated_manyWallets :
    Settings.manyWallets.check = .ok () ∧
      (∀ a ∈ Settings.manyWallets.range.amounts, ∀ p, (Settings.manyWallets.model.simulate a p
        (Settings.manyWallets.range.recipients p.transferType)).IsValid) ∧
      ∃ a, ((simulated .manyWallets 1).perform .analyze).1 = .ok (.analyzed a) ∧
        a.overheadReduction .singleRecipient = none ∧
        (a.overheadReduction .multiWallet).isSome = true := by
  have hvalid : ∀ a ∈ Settings.manyWallets.range.amounts, ∀ p ∈ Partition.all,
      (Settings.manyWallets.model.simulate a p
        (Settings.manyWallets.range.recipients p.transferType)).IsValid := by
    decide +kernel
  have henough : (simulated .manyWallets 1).store.HoldsEnough 3 :=
    holdsEnough_simulated_iff.mpr (by decide)
  obtain ⟨a, ha⟩ := Analysis.exists_ok_iff.mpr henough
  have hok : ((simulated .manyWallets 1).perform .analyze).1 = .ok (.analyzed a) :=
    perform_analyze_eq_ok_iff.mpr ha
  obtain ⟨hiff, hstandard⟩ := overhead_of_simulated hok
  refine ⟨by decide +kernel, fun a ha p => hvalid a ha p p.mem_all, a, hok, (hstandard rfl).1, ?_⟩
  rw [hiff]
  decide +kernel

end TransferCost
