import Snowlake.Lib.Refinement
import Snowlake.Variant.Agreement
import Snowlake.Variant.Selection

/-! # Variants by their contents

What the members do, said of what the variants hold and of nothing else.  The
numbers, the storage and the objects are left to the variants themselves.
-/

namespace Snowlake.Variant

open Objects VariantImpl

variable {τ : Type} {V : τ → Type} {types : Pack τ} [DecidableEq τ]

/-- What a sound variant holds. -/
inductive Holds : Variant types V → Option ((type : τ) × V type) → Prop
  | full {type : τ} (member : type ∈ types.types) (serial : Nat) (value : V type) :
      Holds (full type serial value) (some ⟨type, value⟩)
  | vacant (data : Storage τ V) : Holds (vacant data) none

namespace Holds

variable {variant temp : Variant types V} {contents after : Option ((type : τ) × V type)}

theorem default : Holds (Variant.default : Variant types V) none := .vacant none

theorem sound (holds : Holds variant contents) : variant.Sound := by
  cases holds with
  | full member serial value => exact .full member serial value
  | vacant data => exact .vacant data

theorem valid (holds : Holds variant contents) : variant.valid = contents.isSome := by
  cases holds with
  | full member serial value => exact valid_full member serial value
  | vacant data => simp [Variant.valid, Variant.vacant]

theorem is {type : τ} {value : V type} (holds : Holds variant (some ⟨type, value⟩)) {other : τ}
    (member' : other ∈ types.types) : variant.is other = decide (type = other) := by
  cases holds with
  | full member serial value => exact is_full member serial value member'

theorem not_is (holds : Holds variant none) {type : τ} (member : type ∈ types.types) :
    variant.is type = false := by
  cases holds with
  | vacant data => exact is_vacant data member

theorem get {m : Type → Type} [Monad m] [MonadExceptOf Failure m] {type : τ} {value : V type}
    (holds : Holds variant (some ⟨type, value⟩)) : variant.get (m := m) type = pure value := by
  cases holds with
  | full member serial value => exact get_full serial value

theorem put {type : τ} {value : V type} (holds : Holds variant (some ⟨type, value⟩)) (left : V type) :
    Holds (variant.put type left) (some ⟨type, left⟩) := by
  cases holds with
  | full member serial value => exact .full member serial left

section Visit

variable {R : Type} {m : Type → Type} [Monad m] [LawfulMonad m] [MonadExceptOf Failure m] {type : τ}
  {value : V type}

theorem visit (holds : Holds variant (some ⟨type, value⟩)) (f : (type : τ) → V type → m (R × V type)) :
    variant.visit f = f type value >>= fun left => pure (left.1, variant.put type left.2) := by
  cases holds with
  | full member serial value =>
      obtain ⟨before, after, split, index⟩ := indexOf_split member
      exact dispatch_at types.small (operand_at split index serial value) _

/-- A visitor that leaves the value alone. -/
theorem visited {ρ : Type} (rel : R → ρ → Prop) {result : ρ} (holds : Holds variant (some ⟨type, value⟩))
    {f : (type : τ) → V type → Exec (R × V type)}
    (refines : Refines (fun made result => rel made.1 result ∧ made.2 = value) (f type value) (.ok result)) :
    Refines (fun made result => rel made.1 result ∧ Holds made.2 (some ⟨type, value⟩)) (variant.visit f)
      (.ok result) := by
  rw [holds.visit]
  refine Refines.step refines ?_
  intro ⟨made, left⟩ ⟨related, same⟩
  subst same
  exact Refines.pure ⟨related, holds.put _⟩

end Visit

/-! ## Construction and assignment -/

variable (conversions : Conversions τ V)

/-- An argument that selects its own type is held as it is. -/
theorem ofValue {argument : Argument τ V} (member : argument.type ∈ types.types)
    (first : ComesFirst types conversions argument) :
    Refines Holds (Variant.ofValue conversions argument : Exec (Variant types V))
      (.ok (some ⟨argument.type, argument.value⟩)) := by
  have found := (selected_eq_iff conversions member).mpr first
  refine Refines.of_ok fun ledger => ⟨_, _, ofValue_selected conversions found ledger, ?_⟩
  rw [conversions.convert_self]
  exact .full member _ _

/-- A copy holds the same, and the original is left alone. -/
theorem copied (holds : Holds variant contents) :
    Refines (fun made contents => Holds made.1 contents ∧ made.2 = variant)
      (variant.ofVariant conversions .lvalue true) (.ok contents) := by
  refine Refines.of_ok fun ledger => ?_
  have notMoved : ¬ moves .lvalue true := by simp [moves]
  have notTaken : takesTemplate conversions types .lvalue true = false := rfl
  cases holds with
  | full member serial value =>
      have made := ofVariant_copies notTaken notMoved (copyOf_full member serial value ledger)
      exact ⟨_, _, made, .full member _ value, rfl⟩
  | vacant data =>
      have made := ofVariant_copies notTaken notMoved (copyOf_vacant data ledger)
      exact ⟨_, _, made, .vacant none, rfl⟩

/-- A move takes the contents away. -/
theorem moved (holds : Holds variant contents) :
    Refines (fun made contents => Holds made.1 contents ∧ Holds made.2 none)
      (variant.ofVariant conversions .rvalue false) (.ok contents) := by
  refine Refines.of_ok fun ledger => ?_
  rw [ofVariant_moves conversions ⟨rfl, rfl⟩]
  cases holds with
  | full member serial value =>
      exact ⟨_, _, moveOf_full member serial value ledger, .full member _ value, .vacant _⟩
  | vacant data => exact ⟨_, _, moveOf_vacant data ledger, .vacant none, .vacant data⟩

/-- What is swapped in is held from then on. -/
theorem swapIn (holds : Holds variant contents) (holds' : Holds temp after) :
    Refines Holds (variant.swapIn temp) (.ok after) := by
  refine Refines.of_ok fun ledger => ?_
  cases holds' with
  | full member serial value =>
      obtain ⟨serial', after, swapped⟩ := swapIn_sound_full serial value ledger holds.sound member
      exact ⟨_, _, swapped, .full member serial' value⟩
  | vacant data =>
      cases holds with
      | full member serial value => exact ⟨_, _, swapIn_full_vacant serial value data ledger member, .vacant _⟩
      | vacant data' => exact ⟨_, _, swapIn_vacant_vacant data' data ledger, .vacant _⟩

theorem assign (holds : Holds variant contents) (holds' : Holds temp after) :
    Refines Holds (variant.assign temp) (.ok after) := swapIn holds holds'

theorem assignForward (holds : Holds variant contents) {argument : Argument τ V}
    (member : argument.type ∈ types.types) (first : ComesFirst types conversions argument) :
    Refines Holds (variant.assignForward conversions argument) (.ok (some ⟨argument.type, argument.value⟩)) :=
  Refines.step (ofValue conversions member first) fun _ made => swapIn holds made

theorem destroyed (holds : Holds variant contents) :
    Refines (fun _ _ => True) variant.destroyed (.ok ()) := by
  refine Refines.of_ok fun ledger => ?_
  cases holds with
  | full member serial value => exact ⟨_, _, destroyed_full member serial value ledger, trivial⟩
  | vacant data => exact ⟨_, _, destroyed_vacant data ledger, trivial⟩

end Holds

end Snowlake.Variant
