import Snowlake.Lib.Objects

/-! # Refinement of programs with objects

A specification says what a program returns or how it fails, and knows nothing of
objects.  A program refines it if it ends in the same way, with related results,
whatever objects there were before.
-/

namespace Objects

variable {α β γ δ ι : Type} {rel : α → β → Prop} {rel' : γ → δ → Prop}

/-- Both return, and what they return is related, or both fail alike. -/
inductive EndsAlike (rel : α → β → Prop) : Except Failure (α × Ledger) → Except Failure β → Prop
  | ok {made : α} {after : Ledger} {result : β} (related : rel made result) :
      EndsAlike rel (.ok (made, after)) (.ok result)
  | error (failure : Failure) : EndsAlike rel (.error failure) (.error failure)

def Refines (rel : α → β → Prop) (program : Exec α) (specification : Except Failure β) : Prop :=
  ∀ ledger, EndsAlike rel (program ledger) specification

namespace Refines

theorem of_ok {program : Exec α} {result : β}
    (runs : ∀ ledger, ∃ made after, program ledger = .ok (made, after) ∧ rel made result) :
    Refines rel program (.ok result) := by
  intro ledger
  obtain ⟨made, after, ran, related⟩ := runs ledger
  rw [ran]
  exact .ok related

theorem returns {program : Exec α} {result : β} (refines : Refines rel program (.ok result))
    (ledger : Ledger) : ∃ made after, program ledger = .ok (made, after) ∧ rel made result := by
  have ends := refines ledger
  generalize program ledger = outcome at ends
  cases ends with
  | ok related => exact ⟨_, _, rfl, related⟩

theorem pure {made : α} {result : β} (related : rel made result) :
    Refines rel (Pure.pure made) (.ok result) :=
  fun _ => .ok related

theorem throw (failure : Failure) : Refines rel (throw failure) (.error failure) := fun _ => .error failure

theorem mono {other : α → β → Prop} {program : Exec α} {specification : Except Failure β}
    (refines : Refines rel program specification)
    (weaker : ∀ made result, rel made result → other made result) :
    Refines other program specification := by
  intro ledger
  have ends := refines ledger
  generalize program ledger = outcome at ends ⊢
  cases ends with
  | ok related => exact .ok (weaker _ _ related)
  | error failure => exact .error failure

/-- Refinement goes through sequences. -/
theorem bind {program : Exec α} {specification : Except Failure β} {next : α → Exec γ}
    {specified : β → Except Failure δ} (first : Refines rel program specification)
    (second : ∀ made result, rel made result → Refines rel' (next made) (specified result)) :
    Refines rel' (program >>= next) (specification >>= specified) := by
  intro ledger
  have ends := first ledger
  change EndsAlike rel' (Except.bind (program ledger) fun ran => next ran.1 ran.2)
    (Except.bind specification specified)
  generalize program ledger = outcome at ends ⊢
  cases ends with
  | ok related => exact second _ _ related _
  | error failure => exact .error failure

/-- A step that the specification does not have. -/
theorem step {program : Exec α} {result : β} {next : α → Exec γ} {specification : Except Failure δ}
    (first : Refines rel program (.ok result))
    (second : ∀ made, rel made result → Refines rel' (next made) specification) :
    Refines rel' (program >>= next) specification := by
  intro ledger
  obtain ⟨made, after, ran, related⟩ := first.returns ledger
  rw [bind_ok ran]
  exact second made related after

/-- And through loops, whose steps keep the relation. -/
theorem foldlM {each : α → ι → Exec α} {specified : β → ι → Except Failure β}
    (keeps : ∀ made result item, rel made result → Refines rel (each made item) (specified result item))
    (items : List ι) {made : α} {result : β} (related : rel made result) :
    Refines rel (items.foldlM each made) (items.foldlM specified result) := by
  induction items generalizing made result with
  | nil => exact pure related
  | cons item items ih =>
      rw [List.foldlM_cons, List.foldlM_cons]
      exact bind (keeps made result item related) fun _ _ related' => ih related'

end Refines

end Objects
