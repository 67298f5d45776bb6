import Snowlake.Lib.Table
import Snowlake.Variant.Variant

/-! # Programs over variants

A program declares variables, constructs variants in them, assigns to them and
destroys them.  An operation that does not fit the variables that exist is no
operation of a program.
-/

namespace Snowlake.Variant

open Objects VariantImpl

variable {τ : Type} {V : τ → Type} {types : Pack τ}

inductive Operation (τ : Type) (V : τ → Type) where
  | default (name : Nat)
  | ofValue (name : Nat) (argument : Argument τ V)
  | ofVariant (name source : Nat) (category : ValueCategory) (isConst : Bool)
  | assign (name source : Nat) (category : ValueCategory) (isConst : Bool)
  | assignValue (name : Nat) (argument : Argument τ V)
  | destroy (name : Nat)

/-- The variables of one variant type. -/
abbrev World (types : Pack τ) (V : τ → Type) := Table Nat (Variant types V)

namespace World

def find (world : World types V) (name : Nat) : Exec (Variant types V) :=
  match world.lookup name with
  | some variant => pure variant
  | none => throw .illFormed

/-- A new variable. -/
def declare (world : World types V) (name : Nat) (variant : Variant types V) : Exec (World types V) :=
  if name ∈ world then throw .illFormed else pure (world.insert name variant)

theorem find_some {world : World types V} {name : Nat} {variant : Variant types V}
    (found : world.lookup name = some variant) (ledger : Ledger) :
    world.find name ledger = .ok (variant, ledger) := by
  rw [find, found]
  rfl

theorem find_none {world : World types V} {name : Nat} (absent : world.lookup name = none)
    (ledger : Ledger) : world.find name ledger = .error .illFormed := by
  rw [find, absent]
  rfl

end World

variable [DecidableEq τ] (conversions : Conversions τ V)

def step (world : World types V) : Operation τ V → Exec (World types V)
  | .default name => world.declare name .default
  | .ofValue name argument => do
      let variant ← ofValue conversions argument
      world.declare name variant
  | .ofVariant name source category isConst => do
      let other ← world.find source
      let (variant, other) ← other.ofVariant conversions category isConst
      World.declare (world.insert source other) name variant
  | .assign name source category isConst => do
      -- The parameter is initialised first, also when a variant is assigned to itself.
      let other ← world.find source
      let (parameter, other) ← other.ofVariant conversions category isConst
      let world : World types V := world.insert source other
      let variant ← world.find name
      let variant ← variant.assign parameter
      return world.insert name variant
  | .assignValue name argument => do
      let variant ← world.find name
      let variant ← variant.assignValue conversions argument
      return world.insert name variant
  | .destroy name => do
      let variant ← world.find name
      variant.destroyed
      return world.erase name

def run (operations : List (Operation τ V)) : Exec (World types V) :=
  operations.foldlM (step conversions) ∅

theorem run_concat (operations : List (Operation τ V)) (last : Operation τ V) :
    (run conversions (operations ++ [last]) : Exec (World types V)) =
      run conversions operations >>= fun world => step conversions world last := by
  simp only [run, List.foldlM_append, List.foldlM_cons, List.foldlM_nil, bind_pure]

/-- Whichever operator is selected, it makes a variant of its argument. -/
theorem assignValue_eq (argument : Argument τ V) (variant : Variant types V) :
    variant.assignValue conversions argument = ofValue conversions argument >>= variant.swapIn := by
  obtain ⟨category, isConst, type, value⟩ := argument
  cases category <;> cases isConst <;> rfl

/-- The variants that programs produce. -/
def Reachable (variant : Variant types V) : Prop :=
  ∃ operations, ∃ world : World types V, ∃ ledger name,
    run conversions operations {} = .ok (world, ledger) ∧ world.lookup name = some variant

/-! ## Variants of numbers -/

inductive Arithmetic where
  | int
  | double
  deriving Repr, DecidableEq

/-- Numbers small enough for the machine. -/
def Arithmetic.Value : Arithmetic → Type
  | .int => Int
  | .double => Rat

/-- The standard conversions; from `double` the fraction is cut off. -/
def Arithmetic.convert : (source target : Arithmetic) → source.Value → target.Value
  | .int, .int, value | .double, .double, value => value
  | .int, .double, value => Rat.ofInt value
  | .double, .int, value => Int.tdiv (Rat.num value) (Rat.den value)

/-- There is none from a variant, so what it would give does not matter. -/
def arithmeticConversions : Conversions Arithmetic Arithmetic.Value where
  isConvertible
    | .value _ _, _ => true
    | .variant _, _ => false
  convert _ _ := Arithmetic.convert
  convertVariant _ _ _
    | .int => (0 : Int)
    | .double => (0 : Rat)
  isConvertible_self _ _ := rfl
  convert_self _ _ type _ := by cases type <;> rfl

/-- `variant<int, double>`. -/
def intDouble : Pack Arithmetic := ⟨[.int, .double], by decide⟩

/-- An `int` as a temporary. -/
def intArgument (value : Int) : Argument Arithmetic Arithmetic.Value := ⟨.rvalue, false, .int, value⟩

end Snowlake.Variant
