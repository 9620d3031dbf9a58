import TransferCost.Proofs.Wording

/-!
# The sections of a report

A report is read back as blocks, whatever its figures are.  This needs that no figure and no date
breaks out of its line or its cell, and that no paragraph begins like a block of another kind.
`Report.isMadeOf_blocks` says so of all blocks at once.

## 1.  Missing metrics

The slash is in no figure.  So the places where a metric may be missing are told by `n/a`, also
inside a sentence.

## 2.  What stands where

`Report.IsLaidOut` describes the blocks of a report by what a reader of the document finds under its
headings, without the functions that wrote them.
-/

namespace TransferCost

open Block

/-- **Every report is read as the blocks that it was made of.** -/
theorem Report.read?_text (a : Analysis) (date : Date) :
    read? (text a date) = some (blocks a date) :=
  read?_textOf (by simp [blocks]) <|
    isMadeOf_blocks (fun _ hs => hs.isInline) (fun _ => isInline_ofList (by decide)) fun _ =>
      isInline_ofList (by decide)

/-! ## 1.  Missing metrics -/

/-- The text has no slash. -/
def IsSlashFree (s : String) : Prop :=
  '/' ∉ s.toList

theorem isSlashFree_ofList {cs : List Char} (h : '/' ∉ cs) : IsSlashFree (String.ofList cs) := by
  unfold IsSlashFree
  rwa [String.toList_ofList]

theorem IsFigure.isSlashFree {s : String} (h : IsFigure s) : IsSlashFree s :=
  h.not_mem (by decide)

/-- **A missing metric is told from a figure inside a text**, if no other part of the text has a
slash. -/
theorem Figure.contains_notAvailable_iff {α : Type} {figure : α → String}
    (h : ∀ a, IsFigure (figure a)) {a? : Option α} {parts : List String}
    (hmem : orNotAvailable figure a? ∈ parts)
    (hparts : ∀ s ∈ parts, s = orNotAvailable figure a? ∨ IsSlashFree s) :
    Contains (String.join parts) notAvailable ↔ a? = none := by
  unfold Contains
  rw [String.toList_join, List.flatMap_def]
  cases a? with
  | none => exact iff_of_true (List.infix_of_mem_flatten (List.mem_map_of_mem hmem)) rfl
  | some a =>
    refine iff_of_false (fun hcontains => ?_) nofun
    have hslash : '/' ∈ notAvailable.toList := by
      decide
    obtain ⟨cs, hcs, hslash⟩ := List.mem_flatten.mp (hcontains.subset hslash)
    obtain ⟨s, hs, rfl⟩ := List.mem_map.mp hcs
    rcases hparts s hs with rfl | hfree
    · exact (h a).isSlashFree hslash
    · exact hfree hslash

/-! ## 2.  What stands where -/

namespace Block

/-- The level and the title of a heading. -/
def heading? : Block → Option (ℕ × String)
  | heading level title => some (level, title)
  | _ => none

/-- The table that a block is. -/
def table? : Block → Option MarkdownTable
  | table t => some t
  | _ => none

/-- The blocks under the heading with this title, up to the next heading. -/
def under (title : String) (bs : List Block) : List Block :=
  ((bs.dropWhile fun b => b.heading?.map (·.2) ≠ some title).drop 1).takeWhile
    fun b => b.heading? = none

/-- The tables under the heading with this title. -/
def tablesUnder (title : String) (bs : List Block) : List MarkdownTable :=
  (under title bs).filterMap table?

end Block

namespace Report

open Figure (notAvailable)

/-- A row of the table of costs. -/
structure IsCostRow (c : SizeCost) (row : List String) : Prop where
  cells : row = [c.transferType.label, Figure.units c.units, Figure.amount c.unoptimizedCost,
    Figure.amount c.optimizedCost, Figure.reduction c.costReduction]
  missing : row.getLast? = some notAvailable ↔ c.costReduction = none

/-- The row is one of single recipients at this amount. -/
def isSingleAt (x : Float) (c : SizeCost) : Bool :=
  c.transferType = .singleRecipient && c.amount == x

/-- The cell for what single recipients save at an amount, beside the table of costs. -/
structure IsSavingAt (costs : List SizeCost) (x : Float) (cell : String) : Prop where
  /-- Of several rows at the amount the first one counts. -/
  first : ∀ c, costs.find? (isSingleAt x) = some c → cell = Figure.amount c.saving
  missing : cell = notAvailable ↔ ∀ c ∈ costs, isSingleAt x c = false

/-- A row of the scaling curve. -/
def IsPointRow (costs : List SizeCost) (p : ScalingPoint) (row : List String) : Prop :=
  ∃ saving, IsSavingAt costs p.amount saving ∧
    row = [Decimal.fixed 2 (toUnits p.amount), Figure.points p.improvement, saving]

/-- A report, as a reader of the document finds it. -/
structure IsLaidOut (a : Analysis) (bs : List Block) : Prop where
  /-- The headings, in this order. -/
  headings : bs.filterMap heading? =
    [(1, "Multi-Hop Transfer Cost Efficiency Report"), (2, "Summary"), (3, "Core Metrics"),
     (3, "Total Cost by Transfer Size"), (2, "Detailed Analysis"), (3, "1. Rent Cost"),
     (3, "2. Transfer Efficiency")] ++
    (if a.scaling.points = [] then [] else [(3, "3. Scaling")]) ++ [(2, "Conclusions")]
  /-- Each of them once. -/
  once : (bs.filterMap heading?).Nodup
  /-- The core metrics are six rows. -/
  core : ∃ t, tablesUnder "Core Metrics" bs = [t] ∧ t.rows.map (·.head?) =
      ["Transfer efficiency (Single-Recipient)", "Transfer efficiency (Multi-Wallet)",
       "Rent cost (Single-Recipient)", "Rent cost (Multi-Wallet)",
       "Remaining accounts (Single-Recipient)", "Remaining accounts (Multi-Wallet)"].map some ∧
    ∀ type, ∀ row ∈ t.rows, row.head? = some s!"Rent cost ({type.label})" →
      (row.getLast? = some notAvailable ↔
        (a.types.get type).improvement.reductionOfKind.rent = none)
  /-- Without costs by size there is no table of them. -/
  noCosts : a.scaling.costs = [] → tablesUnder "Total Cost by Transfer Size" bs = []
  /-- The table of costs has one row for each of them, in order. -/
  costs : a.scaling.costs ≠ [] → ∃ t, tablesUnder "Total Cost by Transfer Size" bs = [t] ∧
    List.Forall₂ IsCostRow a.scaling.costs t.rows
  /-- The scaling curve has one row for each point, in order. -/
  points : a.scaling.points ≠ [] → ∃ t, tablesUnder "3. Scaling" bs = [t] ∧
    List.Forall₂ (IsPointRow a.scaling.costs) a.scaling.points t.rows
  /-- There are no other tables. -/
  tables : bs.filterMap table? = tablesUnder "Core Metrics" bs ++
    tablesUnder "Total Cost by Transfer Size" bs ++ tablesUnder "3. Scaling" bs
  /-- Every row is as wide as its header. -/
  width : ∀ t ∈ bs.filterMap table?, ∀ row ∈ t.rows, row.length = t.header.length
  /-- The summary is a sentence with the mean cost reduction. -/
  summary : ∃ text, under "Summary" bs = [.paragraph text] ∧
    (Contains text notAvailable ↔ a.averageCostReduction = none)
  /-- The section on rent begins with a sentence on the reduction for single recipients. -/
  rent : ∃ text text', under "1. Rent Cost" bs = [.paragraph text, .paragraph text'] ∧
    (Contains text notAvailable ↔
      (a.types.get .singleRecipient).improvement.reductionOfKind.rent = none)
  /-- The second conclusion is about the mean cost reduction, and the fourth about how the cost
  reductions of the transfer types differ. -/
  conclusions : ∃ gain cost resources viability,
    under "Conclusions" bs = [.numbered [gain, cost, resources, viability]] ∧
      (Contains cost notAvailable ↔ a.averageCostReduction = none) ∧
      (Contains viability notAvailable ↔ a.contrast.costReduction = none)

section Layout

variable (a : Analysis) (date : Date)

theorem headings_blocks : (blocks a date).filterMap heading? =
    [(1, "Multi-Hop Transfer Cost Efficiency Report"), (2, "Summary"), (3, "Core Metrics"),
     (3, "Total Cost by Transfer Size"), (2, "Detailed Analysis"), (3, "1. Rent Cost"),
     (3, "2. Transfer Efficiency")] ++
    (if a.scaling.points = [] then [] else [(3, "3. Scaling")]) ++ [(2, "Conclusions")] := by
  have hcosts : (costsBySize a).filterMap heading? = [(3, "Total Cost by Transfer Size")] := by
    unfold costsBySize
    cases a.scaling.costs.isEmpty <;> rfl
  have hscaling : (scaling a.scaling).filterMap heading? =
      if a.scaling.points = [] then [] else [(3, "3. Scaling")] := by
    unfold scaling Scaling.isEmpty
    cases a.scaling.points with
    | nil => rfl
    | cons p rest => cases a.scaling.optimum <;> rfl
  simp only [blocks, List.filterMap_append, hcosts, hscaling]
  rfl

/-! Each section is found under its title. -/

theorem under_summary : under "Summary" (blocks a date) = (summary a).tail := by
  simp [under, blocks, summary, heading?, coreMetrics]

theorem under_coreMetrics : under "Core Metrics" (blocks a date) = (coreMetrics a).tail := by
  simp [under, blocks, summary, heading?, coreMetrics, costsBySize]

theorem under_costsBySize :
    under "Total Cost by Transfer Size" (blocks a date) = (costsBySize a).tail := by
  unfold blocks costsBySize
  cases a.scaling.costs.isEmpty <;> simp [under, summary, heading?, coreMetrics]

theorem under_rent : under "1. Rent Cost" (blocks a date) = (rent a).tail := by
  unfold blocks costsBySize
  cases a.scaling.costs.isEmpty <;>
    simp [under, summary, heading?, coreMetrics, rent, efficiency]

theorem under_scaling : under "3. Scaling" (blocks a date) = (scaling a.scaling).tail := by
  unfold blocks costsBySize scaling Scaling.isEmpty
  cases a.scaling.costs.isEmpty <;> cases a.scaling.points <;> cases a.scaling.optimum <;>
    simp [under, summary, heading?, coreMetrics, rent, efficiency, conclusions]

theorem under_conclusions : under "Conclusions" (blocks a date) = (conclusions a).tail := by
  unfold blocks costsBySize scaling Scaling.isEmpty
  cases a.scaling.costs.isEmpty <;> cases a.scaling.points <;> cases a.scaling.optimum <;>
    simp [under, summary, heading?, coreMetrics, rent, efficiency, conclusions]

/-! The three tables. -/

theorem tablesUnder_coreMetrics : tablesUnder "Core Metrics" (blocks a date) = [coreTable a] := by
  rw [tablesUnder, under_coreMetrics]
  rfl

theorem tablesUnder_costsBySize : tablesUnder "Total Cost by Transfer Size" (blocks a date) =
    if a.scaling.costs = [] then [] else [costTable a.scaling.costs] := by
  rw [tablesUnder, under_costsBySize, costsBySize]
  cases a.scaling.costs <;> rfl

theorem tablesUnder_scaling : tablesUnder "3. Scaling" (blocks a date) =
    if a.scaling.points = [] then [] else [scalingTable a.scaling] := by
  rw [tablesUnder, under_scaling, scaling, Scaling.isEmpty]
  cases a.scaling.points with
  | nil => rfl
  | cons p rest => cases a.scaling.optimum <;> rfl

theorem tables_blocks : (blocks a date).filterMap table? =
    tablesUnder "Core Metrics" (blocks a date) ++
      tablesUnder "Total Cost by Transfer Size" (blocks a date) ++
      tablesUnder "3. Scaling" (blocks a date) := by
  rw [tablesUnder_coreMetrics, tablesUnder_costsBySize, tablesUnder_scaling]
  have hcosts : (costsBySize a).filterMap table? =
      if a.scaling.costs = [] then [] else [costTable a.scaling.costs] := by
    unfold costsBySize
    cases a.scaling.costs <;> rfl
  have hscaling : (scaling a.scaling).filterMap table? =
      if a.scaling.points = [] then [] else [scalingTable a.scaling] := by
    unfold scaling Scaling.isEmpty
    cases a.scaling.points with
    | nil => rfl
    | cons p rest => cases a.scaling.optimum <;> rfl
  have hcore : (coreMetrics a).filterMap table? = [coreTable a] := rfl
  have hrest : (summary a).filterMap table? = [] ∧ (rent a).filterMap table? = [] ∧
      (efficiency a).filterMap table? = [] ∧ (conclusions a).filterMap table? = [] :=
    ⟨rfl, rfl, rfl, rfl⟩
  have hbetween (level : ℕ) (title : String) (rest : List Block) :
      (Block.heading level title :: rest).filterMap table? = rest.filterMap table? := rfl
  simp only [blocks, List.filterMap_append, hcosts, hscaling, hcore, hrest, hbetween,
    List.append_nil, List.filterMap_nil]
  rfl

theorem isCostRow_costRow (c : SizeCost) : IsCostRow c (costRow c) where
  cells := rfl
  missing := by
    rw [← Figure.orNotAvailable_eq_iff Figure.isFigure_change]
    simp [costRow, Figure.reduction]

theorem isSavingAt_savingAt (costs : List SizeCost) (x : Float) :
    IsSavingAt costs x (savingAt costs x) where
  first c hc := by
    unfold isSingleAt at hc
    rw [savingAt, hc]
    rfl
  missing := by
    rw [savingAt, Figure.orNotAvailable_eq_iff fun c => Figure.isFigure_amount _,
      List.find?_eq_none]
    exact forall₂_congr fun c _ => (Bool.not_eq_true _).to_iff

theorem isPointRow_pointRow (costs : List SizeCost) (p : ScalingPoint) :
    IsPointRow costs p (pointRow costs p) :=
  ⟨savingAt costs p.amount, isSavingAt_savingAt costs p.amount, rfl⟩

/-! The places where a metric may be missing. -/

/-- A row with the name of a rent is the row of this rent. -/
theorem eq_rentRow (t : TransferType) {row : List String} (hrow : row ∈ (coreTable a).rows)
    (hhead : row.head? = some s!"Rent cost ({t.label})") : row = rentRow t (a.types.get t) := by
  simp only [coreTable, TransferType.all, List.flatMap_cons, List.flatMap_nil, List.map_cons,
    List.map_nil, List.append_nil, List.cons_append, List.nil_append, List.mem_cons,
    List.not_mem_nil, or_false] at hrow
  rcases hrow with rfl | rfl | rfl | rfl | rfl | rfl <;> cases t <;>
    simp [efficiencyRow, rentRow, accountsRow, TransferType.label, toString] at hhead ⊢

theorem length_coreRows {row : List String} (hrow : row ∈ (coreTable a).rows) :
    row.length = (coreTable a).header.length := by
  obtain ⟨f, hf, hrow⟩ := List.mem_flatMap.mp hrow
  obtain ⟨t, -, rfl⟩ := List.mem_map.mp hrow
  simp only [List.mem_cons, List.not_mem_nil, or_false] at hf
  rcases hf with rfl | rfl | rfl <;> rfl

theorem contains_summaryText :
    Contains (summaryText a) notAvailable ↔ a.averageCostReduction = none := by
  refine Figure.contains_notAvailable_iff Figure.isFigure_percentage (by simp [Figure.percent]) ?_
  simp only [List.forall_mem_cons]
  exact ⟨.inr (isSlashFree_ofList (by decide)), .inr (Figure.isFigure_points _).isSlashFree,
    .inr (isSlashFree_ofList (by decide)), .inl rfl, .inr (isSlashFree_ofList (by decide)),
    List.forall_mem_nil _⟩

theorem contains_rentText (i : Improvement) :
    Contains (rentText i) notAvailable ↔ i.reductionOfKind.rent = none := by
  refine Figure.contains_notAvailable_iff Figure.isFigure_change (by simp [Figure.reduction]) ?_
  simp only [List.forall_mem_cons]
  exact ⟨.inr (isSlashFree_ofList (by decide)), .inr (isSlashFree_ofList (by decide)), .inl rfl,
    .inr (isSlashFree_ofList (by decide)), List.forall_mem_nil _⟩

theorem contains_costConclusion :
    Contains (costConclusion a) notAvailable ↔ a.averageCostReduction = none := by
  refine Figure.contains_notAvailable_iff Figure.isFigure_change (by simp [Figure.reduction]) ?_
  simp only [List.forall_mem_cons]
  exact ⟨.inr (isSlashFree_ofList (by decide)), .inl rfl, .inr (isSlashFree_ofList (by decide)),
    List.forall_mem_nil _⟩

theorem contains_viabilityConclusion :
    Contains (viabilityConclusion a) notAvailable ↔ a.contrast.costReduction = none := by
  refine Figure.contains_notAvailable_iff Figure.isFigure_points (by simp) ?_
  simp only [List.forall_mem_cons]
  exact ⟨.inr (isSlashFree_ofList (by decide)), .inl trivial, .inr (isSlashFree_ofList (by decide)),
    List.forall_mem_nil _⟩

theorem isLaidOut_blocks : IsLaidOut a (blocks a date) where
  headings := headings_blocks a date
  once := by
    rw [headings_blocks]
    split_ifs <;> decide
  core := by
    refine ⟨_, tablesUnder_coreMetrics a date, rfl, fun t row hrow hhead => ?_⟩
    rw [eq_rentRow a t hrow hhead, ← Figure.orNotAvailable_eq_iff Figure.isFigure_change]
    simp [rentRow, Figure.reduction]
  noCosts hnil := by
    rw [tablesUnder_costsBySize, if_pos hnil]
  costs hne := by
    refine ⟨costTable a.scaling.costs, ?_, ?_⟩
    · rw [tablesUnder_costsBySize, if_neg hne]
    · exact List.forall₂_map_right_iff.mpr (List.forall₂_same.mpr fun c _ => isCostRow_costRow c)
  points hne := by
    refine ⟨scalingTable a.scaling, ?_, ?_⟩
    · rw [tablesUnder_scaling, if_neg hne]
    · exact List.forall₂_map_right_iff.mpr
        (List.forall₂_same.mpr fun p _ => isPointRow_pointRow a.scaling.costs p)
  tables := tables_blocks a date
  width t ht row hrow := by
    rw [tables_blocks, tablesUnder_coreMetrics, tablesUnder_costsBySize, tablesUnder_scaling,
      List.mem_append, List.mem_append] at ht
    rcases ht with (ht | ht) | ht
    · rw [List.mem_singleton.mp ht] at hrow ⊢
      exact length_coreRows a hrow
    · split_ifs at ht
      · exact absurd ht List.not_mem_nil
      · rw [List.mem_singleton.mp ht] at hrow ⊢
        obtain ⟨c, -, rfl⟩ := List.mem_map.mp hrow
        rfl
    · split_ifs at ht
      · exact absurd ht List.not_mem_nil
      · rw [List.mem_singleton.mp ht] at hrow ⊢
        obtain ⟨p, -, rfl⟩ := List.mem_map.mp hrow
        rfl
  summary := by
    rw [under_summary]
    exact ⟨_, rfl, contains_summaryText a⟩
  rent := by
    rw [under_rent]
    exact ⟨_, _, rfl, contains_rentText _⟩
  conclusions := by
    rw [under_conclusions]
    exact ⟨_, _, _, _, rfl, contains_costConclusion a, contains_viabilityConclusion a⟩

end Layout

/-- **Every report can be read, and is laid out as it should be**, whatever the analysis holds. -/
theorem exists_read?_text (a : Analysis) (date : Date) :
    ∃ bs, read? (text a date) = some bs ∧ IsLaidOut a bs :=
  ⟨blocks a date, read?_text a date, isLaidOut_blocks a date⟩

end Report
end TransferCost
