/-!
# The four kinds of transfers

A transfer is made in one of two modes, optimized or unoptimized, and goes either to a single
recipient or to many wallets.  Samples are kept apart by both, so there are four partitions.

`PerMode`, `PerType` and `PerPartition` hold one value for each mode, type and partition.  All of
the analysis that "does the same for each" is a function on these, and `PerPartition.get_modify` is
the one law that keeps the four values apart.

## The order of the partitions

Wherever partitions are walked in a row --- in a sufficiency check, in a document, in a report ---
the transfer type is the major key, and the optimized mode comes first.  `Partition.all` is that
order, and `Partition.all_eq` has the four partitions in a row.
-/

namespace TransferCost

/-- How a transfer is carried out. -/
inductive Optimization where
  | optimized
  | unoptimized
deriving DecidableEq, Repr

namespace Optimization

/-- Both modes, in order. -/
def all : List Optimization :=
  [optimized, unoptimized]

/-- The name of a mode in documents. -/
def key : Optimization → String
  | optimized => "optimized"
  | unoptimized => "unoptimized"

/-- The modes by their names. -/
def known : List (String × Optimization) :=
  all.map fun o => (o.key, o)

theorem mem_all (o : Optimization) : o ∈ all := by
  cases o <;> simp [all]

end Optimization

/-- Where a transfer goes. -/
inductive TransferType where
  | singleRecipient
  | multiWallet
deriving DecidableEq, Repr

namespace TransferType

/-- Both types, in order. -/
def all : List TransferType :=
  [singleRecipient, multiWallet]

/-- The name of a type in documents. -/
def key : TransferType → String
  | singleRecipient => "single_recipient"
  | multiWallet => "multi_wallet"

/-- The name of a type in reports. -/
def label : TransferType → String
  | singleRecipient => "Single-Recipient"
  | multiWallet => "Multi-Wallet"

/-- The types by their names. -/
def known : List (String × TransferType) :=
  all.map fun t => (t.key, t)

theorem mem_all (t : TransferType) : t ∈ all := by
  cases t <;> simp [all]

end TransferType

/-- A mode together with a transfer type. -/
structure Partition where
  optimization : Optimization
  transferType : TransferType
deriving DecidableEq, Repr

namespace Partition

/-- The partitions, in order. -/
def all : List Partition :=
  TransferType.all.flatMap fun t => Optimization.all.map fun o => ⟨o, t⟩

/-- The name of a partition in messages. -/
def name (p : Partition) : String :=
  s!"{p.transferType.key}/{p.optimization.key}"

/-- **The order of the partitions**, written out. -/
theorem all_eq : all =
    [⟨.optimized, .singleRecipient⟩, ⟨.unoptimized, .singleRecipient⟩,
     ⟨.optimized, .multiWallet⟩, ⟨.unoptimized, .multiWallet⟩] :=
  rfl

theorem mem_all (p : Partition) : p ∈ all := by
  rcases p with ⟨o, t⟩
  cases o <;> cases t <;> simp [all_eq]

end Partition

/-! ## One value for each -/

/-- One value for each mode. -/
structure PerMode (α : Type) where
  optimized : α
  unoptimized : α
deriving DecidableEq, BEq

namespace PerMode

variable {α β : Type}

/-- The value of a mode. -/
def get (m : PerMode α) : Optimization → α
  | .optimized => m.optimized
  | .unoptimized => m.unoptimized

/-- The value of one mode changed. -/
def modify (m : PerMode α) (o : Optimization) (f : α → α) : PerMode α :=
  match o with
  | .optimized => { m with optimized := f m.optimized }
  | .unoptimized => { m with unoptimized := f m.unoptimized }

/-- The same value for both. -/
def fill (a : α) : PerMode α :=
  ⟨a, a⟩

/-- A function of the mode, as values. -/
def ofFn (f : Optimization → α) : PerMode α :=
  ⟨f .optimized, f .unoptimized⟩

@[simp] theorem get_fill (a : α) (o : Optimization) : (fill a).get o = a := by
  cases o <;> rfl

@[simp] theorem get_ofFn (f : Optimization → α) (o : Optimization) : (ofFn f).get o = f o := by
  cases o <;> rfl

theorem get_modify (m : PerMode α) (o o' : Optimization) (f : α → α) :
    (m.modify o f).get o' = if o' = o then f (m.get o') else m.get o' := by
  cases o <;> cases o' <;> rfl

@[ext] theorem ext_get {m m' : PerMode α} (h : ∀ o, m.get o = m'.get o) : m = m' := by
  cases m
  cases m'
  rw [PerMode.mk.injEq]
  exact ⟨h .optimized, h .unoptimized⟩

end PerMode

/-- One value for each transfer type. -/
structure PerType (α : Type) where
  singleRecipient : α
  multiWallet : α
deriving DecidableEq, BEq

namespace PerType

variable {α β : Type}

/-- The value of a transfer type. -/
def get (g : PerType α) : TransferType → α
  | .singleRecipient => g.singleRecipient
  | .multiWallet => g.multiWallet

/-- The value of one transfer type changed. -/
def modify (g : PerType α) (t : TransferType) (f : α → α) : PerType α :=
  match t with
  | .singleRecipient => { g with singleRecipient := f g.singleRecipient }
  | .multiWallet => { g with multiWallet := f g.multiWallet }

/-- The same value for both. -/
def fill (a : α) : PerType α :=
  ⟨a, a⟩

/-- A function of the transfer type, as values. -/
def ofFn (f : TransferType → α) : PerType α :=
  ⟨f .singleRecipient, f .multiWallet⟩

@[simp] theorem get_fill (a : α) (t : TransferType) : (fill a).get t = a := by
  cases t <;> rfl

@[simp] theorem get_ofFn (f : TransferType → α) (t : TransferType) : (ofFn f).get t = f t := by
  cases t <;> rfl

theorem get_modify (g : PerType α) (t t' : TransferType) (f : α → α) :
    (g.modify t f).get t' = if t' = t then f (g.get t') else g.get t' := by
  cases t <;> cases t' <;> rfl

@[ext] theorem ext_get {g g' : PerType α} (h : ∀ t, g.get t = g'.get t) : g = g' := by
  cases g
  cases g'
  rw [PerType.mk.injEq]
  exact ⟨h .singleRecipient, h .multiWallet⟩

end PerType

/-- One value for each partition. -/
abbrev PerPartition (α : Type) := PerType (PerMode α)

namespace PerPartition

variable {α β : Type}

/-- The value of a partition. -/
def get (g : PerPartition α) (p : Partition) : α :=
  (PerType.get g p.transferType).get p.optimization

/-- The value of one partition changed. -/
def modify (g : PerPartition α) (p : Partition) (f : α → α) : PerPartition α :=
  PerType.modify g p.transferType fun m => m.modify p.optimization f

/-- The same value for all. -/
def fill (a : α) : PerPartition α :=
  PerType.fill (PerMode.fill a)

/-- A function of the partition, as values. -/
def ofFn (f : Partition → α) : PerPartition α :=
  PerType.ofFn fun t => PerMode.ofFn fun o => f ⟨o, t⟩

/-- The values in the order of the partitions. -/
def toList (g : PerPartition α) : List α :=
  Partition.all.map g.get

@[simp] theorem get_fill (a : α) (p : Partition) : (fill a).get p = a := by
  simp [get, fill]

@[simp] theorem get_ofFn (f : Partition → α) (p : Partition) : (ofFn f).get p = f p := by
  simp [get, ofFn]

/-- **A change of one partition leaves the others alone.** -/
theorem get_modify (g : PerPartition α) (p p' : Partition) (f : α → α) :
    (g.modify p f).get p' = if p' = p then f (g.get p') else g.get p' := by
  rcases p with ⟨o, t⟩
  rcases p' with ⟨o', t'⟩
  by_cases ht : t' = t
  · subst ht
    simp [get, modify, PerType.get_modify, PerMode.get_modify]
  · simp [get, modify, PerType.get_modify, ht]

theorem ext_get {g g' : PerPartition α} (h : ∀ p, g.get p = g'.get p) : g = g' :=
  PerType.ext_get fun t => PerMode.ext_get fun o => h ⟨o, t⟩

end PerPartition
end TransferCost
