import Snowlake.Variant.Lifetimes

/-! # The alternative that an argument selects

The searches are for the type of the argument with its `const`.  No alternative
is a constant type, so a constant argument is never found directly: the first
alternative it converts to is taken, which may stand before its own type.
-/

namespace Snowlake.Variant

open Objects VariantImpl

variable {τ : Type} {V : τ → Type} {types : Pack τ} [DecidableEq τ] (conversions : Conversions τ V)

/-- A variant that was made of an argument holds its type and its value. -/
def HoldsArgument (argument : Argument τ V) (variant : Variant types V) : Prop :=
  variant.is argument.type = true ∧
    variant.get argument.type = (.ok argument.value : Except Failure (V argument.type))

variable (types) in
/-- Construction and assignment select the type of the argument. -/
structure SelectsType (argument : Argument τ V) : Prop where
  constructed : ∀ ledger, ∃ (variant : Variant types V) (after : Ledger),
    ofValue conversions argument ledger = .ok (variant, after) ∧ HoldsArgument argument variant
  assigned : ∀ target : Variant types V, Reachable conversions target → ∀ ledger,
    ∃ (variant : Variant types V) (after : Ledger),
      target.assignValue conversions argument ledger = .ok (variant, after) ∧ HoldsArgument argument variant

variable (types) in
/-- No alternative before the argument's own takes it with its `const`. -/
def ComesFirst (argument : Argument τ V) : Prop :=
  argument.isConst = false ∨
    ∀ other ∈ types.types.takeWhile (· ≠ argument.type),
      conversions.isConvertible (.value true argument.type) other = false

/-- What comes before the first occurrence of a type. -/
theorem takeWhile_ne_split {before after : List τ} {type : τ} (split : types.types = before ++ type :: after)
    (absent : type ∉ before) : types.types.takeWhile (· ≠ type) = before := by
  have unlike : ∀ other ∈ before, decide (other ≠ type) = true := by
    intro other inside
    simp only [decide_eq_true_eq]
    intro same
    exact absent (same ▸ inside)
  rw [split, List.takeWhile_append_of_pos unlike]
  simp

/-- The template selects the argument's own type if no other comes first. -/
theorem selected_eq_iff {argument : Argument τ V} (member : argument.type ∈ types.types) :
    selected conversions argument.deduced types = some argument.type ↔
      ComesFirst types conversions argument := by
  obtain ⟨category, isConst, type, value⟩ := argument
  cases isConst with
  | false =>
      refine iff_of_true ?_ (.inl rfl)
      rw [selected, Argument.deduced, find?_isSame_self member, Option.some_or]
  | true =>
      have notFound : types.types.find? (isSame (.value true type)) = none := by
        rw [List.find?_eq_none]
        intro other _
        simp [isSame]
      have self := conversions.isConvertible_self true type
      rw [selected, Argument.deduced, notFound, Option.none_or, List.find?_eq_some_iff_append, ComesFirst]
      constructor
      · rintro ⟨_, before, after, split, earlier⟩
        -- The type itself would have been taken, so it does not occur earlier.
        have absent : type ∉ before := by
          intro inside
          have notTaken := earlier type inside
          rw [self] at notTaken
          cases notTaken
        refine .inr ?_
        rw [takeWhile_ne_split split absent]
        simpa using earlier
      · intro first
        have earlier := first.resolve_left (by simp)
        obtain ⟨before, after, split, absent⟩ := List.eq_append_cons_of_mem member
        rw [takeWhile_ne_split split absent] at earlier
        exact ⟨self, before, after, split, by simpa using earlier⟩

/-- What is made of the argument when `type` is selected. -/
theorem ofValue_selected {argument : Argument τ V} {type : τ}
    (found : selected conversions argument.deduced types = some type) (ledger : Ledger) :
    ofValue conversions argument ledger =
      .ok ((full type ledger.constructed (conversions.convert argument.category argument.isConst
        argument.type type argument.value) : Variant types V), ledger.construct (none : Storage τ V)) := by
  rw [ofValue, ofForwarded_eq, found]

theorem holdsArgument_full {argument : Argument τ V} (member : argument.type ∈ types.types) (serial : Nat) :
    HoldsArgument argument (full argument.type serial (conversions.convert argument.category argument.isConst
      argument.type argument.type argument.value) : Variant types V) := by
  constructor
  · rw [is_full member serial _ member]
    exact decide_eq_true rfl
  · rw [get_full, conversions.convert_self]
    rfl

/-- Any category and any constness selects the type of the argument, but for a
constant argument that an earlier alternative takes. -/
theorem selectsType_iff {argument : Argument τ V} (member : argument.type ∈ types.types) :
    SelectsType types conversions argument ↔ ComesFirst types conversions argument := by
  rw [← selected_eq_iff conversions member]
  constructor
  · intro selects
    obtain ⟨variant, after, made, isType, -⟩ := selects.constructed {}
    cases found : selected conversions argument.deduced types with
    | none =>
        rw [ofValue, ofForwarded_eq, found] at made
        cases made
    | some type =>
        rw [ofValue_selected conversions found] at made
        obtain ⟨rfl, -⟩ := Prod.mk.inj (Except.ok.inj made)
        rw [is_full (valueTraits_of_selected found).1 _ _ member, decide_eq_true_eq] at isType
        rw [isType]
  · intro found
    have made := ofValue_selected conversions found
    constructor
    case constructed =>
      intro ledger
      exact ⟨_, _, made ledger, holdsArgument_full conversions member _⟩
    case assigned =>
      intro target reachable ledger
      obtain ⟨serial, after, swapped⟩ :=
        swapIn_sound_full _ _ (ledger.construct (none : Storage τ V)) reachable.sound member
      refine ⟨_, after, ?_, holdsArgument_full conversions member serial⟩
      rw [assignValue_eq, bind_ok (made ledger)]
      exact swapped

/-- A `const double` variable. -/
def constDouble (value : Rat) : Argument Arithmetic Arithmetic.Value := ⟨.lvalue, true, .double, value⟩

/-- An `int` comes first in `variant<int, double>`. -/
theorem constDouble_selects_int :
    ofValue arithmeticConversions (constDouble (mkRat 5 2)) {} =
        .ok ((full Arithmetic.int 0 (2 : Int) : Variant intDouble Arithmetic.Value), ⟨1, [], []⟩) ∧
      ¬ SelectsType intDouble arithmeticConversions (constDouble (mkRat 5 2)) := by
  have made : ofValue arithmeticConversions (constDouble (mkRat 5 2)) {} =
      .ok ((full Arithmetic.int 0 (2 : Int) : Variant intDouble Arithmetic.Value), ⟨1, [], []⟩) := by
    rfl
  refine ⟨made, ?_⟩
  intro selects
  obtain ⟨variant, after, made', isDouble, -⟩ := selects.constructed {}
  rw [made] at made'
  obtain ⟨rfl, -⟩ := Prod.mk.inj (Except.ok.inj made')
  exact absurd isDouble (by decide)

theorem intArgument_selectsType_iff :
    SelectsType intDouble arithmeticConversions (intArgument 5) ↔
      ComesFirst intDouble arithmeticConversions (intArgument 5) :=
  selectsType_iff arithmeticConversions (by decide)

end Snowlake.Variant
