import TransferCost.Binary64

/-!
# Costs and their shares

The total cost of a transfer has four shares.  `PerKind` holds one value for each kind of cost, and
is read and changed through the kind, so that "for every kind of cost" is a walk over `CostKind.all`
and never a list of four similar lines.

Quantities are measured in subunits, of which a unit has a thousand million.
-/

namespace TransferCost

/-- The number of subunits in a unit. -/
def subunitsPerUnit : Float :=
  1000000000.0

/-- A quantity of subunits in units. -/
def toUnits (amount : Float) : Float :=
  amount / subunitsPerUnit

/-- A quantity of units in whole subunits. -/
def ofUnits (units : Float) : Float :=
  Binary64.roundWhole (units * subunitsPerUnit)

/-- The kinds of costs that a transfer has. -/
inductive CostKind where
  | txFee
  | rent
  | compute
  | overhead
deriving DecidableEq, Repr

namespace CostKind

/-- All kinds, in order. -/
def all : List CostKind :=
  [txFee, rent, compute, overhead]

/-- The name of a kind in documents. -/
def key : CostKind → String
  | txFee => "tx_fee"
  | rent => "rent"
  | compute => "compute"
  | overhead => "overhead"

/-- The name of a kind in tables. -/
def label : CostKind → String
  | txFee => "Transaction fees"
  | rent => "Account rent"
  | compute => "Compute units"
  | overhead => "Protocol overhead"

/-- The kinds by their names. -/
def known : List (String × CostKind) :=
  all.map fun k => (k.key, k)

theorem mem_all (k : CostKind) : k ∈ all := by
  cases k <;> simp [all]

end CostKind

/-- One value for each kind of cost. -/
structure PerKind (α : Type) where
  txFee : α
  rent : α
  compute : α
  overhead : α
deriving DecidableEq, BEq

namespace PerKind

variable {α β : Type}

/-- The value of a kind. -/
def get (b : PerKind α) : CostKind → α
  | .txFee => b.txFee
  | .rent => b.rent
  | .compute => b.compute
  | .overhead => b.overhead

/-- The value of one kind replaced. -/
def set (b : PerKind α) (k : CostKind) (a : α) : PerKind α :=
  match k with
  | .txFee => { b with txFee := a }
  | .rent => { b with rent := a }
  | .compute => { b with compute := a }
  | .overhead => { b with overhead := a }

/-- The same value for all. -/
def fill (a : α) : PerKind α :=
  ⟨a, a, a, a⟩

/-- A function of the kind, as values. -/
def ofFn (f : CostKind → α) : PerKind α :=
  ⟨f .txFee, f .rent, f .compute, f .overhead⟩

/-- Every value changed. -/
def map (f : α → β) (b : PerKind α) : PerKind β :=
  .ofFn fun k => f (b.get k)

/-- The values in order, each with its kind. -/
def toList (b : PerKind α) : List (CostKind × α) :=
  CostKind.all.map fun k => (k, b.get k)

@[simp] theorem get_fill (a : α) (k : CostKind) : (fill a).get k = a := by
  cases k <;> rfl

@[simp] theorem get_ofFn (f : CostKind → α) (k : CostKind) : (ofFn f).get k = f k := by
  cases k <;> rfl

@[simp] theorem get_map (f : α → β) (b : PerKind α) (k : CostKind) :
    (b.map f).get k = f (b.get k) :=
  get_ofFn _ k

theorem get_set (b : PerKind α) (k k' : CostKind) (a : α) :
    (b.set k a).get k' = if k' = k then a else b.get k' := by
  cases k <;> cases k' <;> rfl

@[ext] theorem ext_get {b b' : PerKind α} (h : ∀ k, b.get k = b'.get k) : b = b' := by
  cases b
  cases b'
  have h₁ := h .txFee
  have h₂ := h .rent
  have h₃ := h .compute
  have h₄ := h .overhead
  simp only [get] at h₁ h₂ h₃ h₄
  simp [h₁, h₂, h₃, h₄]

end PerKind

/-- A quantity for each kind of cost. -/
abbrev Breakdown := PerKind Float

/-- The sum of the shares, in order. -/
def Breakdown.total (b : Breakdown) : Float :=
  Binary64.sum (CostKind.all.map b.get)

end TransferCost
