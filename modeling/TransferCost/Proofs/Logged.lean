import TransferCost.Event

/-!
# Laws of logged results

A `Logged` value is a result and the events on the way to it.  Two of them are equal if both parts
are, and the monad is lawful: events are appended in the order in which they happen, however the
steps are bracketed.

A result of two steps is there if both steps have one: `bind_eq_ok_iff`.
-/

namespace TransferCost

theorem bind_eq_ok_iff {ε α β : Type} {x : Except ε α} {f : α → Except ε β} {b : β} :
    (x >>= f) = .ok b ↔ ∃ a, x = .ok a ∧ f a = .ok b := by
  cases x with
  | error e => simp [bind, Except.bind]
  | ok a => simp [bind, Except.bind]

namespace Logged

variable {α β : Type}

@[ext] theorem ext {x y : Logged α} (hv : x.value = y.value) (he : x.events = y.events) :
    x = y := by
  cases x
  cases y
  cases hv
  cases he
  rfl

@[simp] theorem value_map (f : α → β) (x : Logged α) : (f <$> x).value = f x.value := rfl

@[simp] theorem events_map (f : α → β) (x : Logged α) : (f <$> x).events = x.events :=
  List.append_nil _

instance : LawfulMonad Logged :=
  LawfulMonad.mk' _
    (fun x => ext (value_map id x) (events_map id x))
    (fun _ _ => rfl)
    (fun x f g => ext rfl (List.append_assoc x.events _ _))

theorem value_mapM (f : α → Logged β) (as : List α) :
    (as.mapM f).value = as.map fun a => (f a).value := by
  induction as with
  | nil => rfl
  | cons a rest ih =>
    rw [List.mapM_cons, value_bind, value_bind, ih]
    rfl

/-- A walk over a list that only reports has the reports for its events. -/
@[simp] theorem events_forM_report (f : α → Event) (xs : List α) :
    (forM xs fun a => report (f a)).events = xs.map f := by
  induction xs with
  | nil => rfl
  | cons a rest ih =>
    rw [List.forM_cons, events_bind, ih, events_report, List.map_cons, List.singleton_append]

end Logged
end TransferCost
