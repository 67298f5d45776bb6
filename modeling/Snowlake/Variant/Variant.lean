import Snowlake.Variant.Impl

/-! # The variant

`src/variant.h`.  A variant is an index and raw storage.  Memory that a function
uses is passed and returned; what happens to the objects in it is in the ledger.
-/

namespace Snowlake

open Objects VariantImpl

variable {τ : Type} {V : τ → Type}

structure Variant (types : Pack τ) (V : τ → Type) where
  typeIndex : SizeT
  data : Storage τ V

/-- An argument of type `type`, as an expression of some category. -/
structure Argument (τ : Type) (V : τ → Type) where
  category : ValueCategory
  isConst : Bool
  type : τ
  value : V type

/-- What `T&&` deduces for it, less the reference. -/
def Argument.deduced (argument : Argument τ V) : Deduced τ := .value argument.isConst argument.type

namespace Variant

variable {types : Pack τ}

/-- `variant()`. -/
def default : Variant types V := ⟨invalidTypeIndex, none⟩

def valid (variant : Variant types V) : Bool := variant.typeIndex != invalidTypeIndex

/-- What the variant holds; an empty variant may have an object in its storage, but none of its own. -/
def contents (variant : Variant types V) : Option ((type : τ) × V type) :=
  if variant.valid then variant.data.map fun object => ⟨object.type, object.value⟩ else none

/-- `static_cast<int>(sizeof...(Types) - _type_index - 1)`. -/
def which (variant : Variant types V) : Int32 :=
  (packSize types.types - variant.typeIndex - 1).toUInt32.toInt32

variable [DecidableEq τ]

/-! ## Access -/

def is (type : τ) (variant : Variant types V) : Bool :=
  variant.typeIndex = directType (.value false type) types.types

def get {m : Type → Type} [Monad m] [MonadExceptOf Failure m] (type : τ) (variant : Variant types V) :
    m (V type) :=
  if variant.typeIndex = directType (.value false type) types.types then read type variant.data
  else throw (.thrown "failed get<T>() in variant type")

/-! ## Construction and destruction -/

/-- `variant(variant const&)`. -/
def copyOf (other : Variant types V) : Exec (Variant types V) := do
  let data ← copy types.types other.typeIndex other.data none
  return ⟨other.typeIndex, data⟩

/-- `variant(variant&&)`, and what becomes of the other. -/
def moveOf (other : Variant types V) : Exec (Variant types V × Variant types V) := do
  let data ← move types.types other.typeIndex other.data none
  return (⟨other.typeIndex, data⟩, { other with typeIndex := invalidTypeIndex })

/-- `variant(T&&)`; `target` makes the value of the type that is selected. -/
def ofForwarded (conversions : Conversions τ V) (source : Deduced τ) (target : (type : τ) → V type) :
    Exec (Variant types V) :=
  if isValidType conversions source types.types then
    let index := valueTraits conversions source types.types
    match selectType (packSize types.types - index - 1) types.types with
    | none => throw .illFormed
    | some type => do
        let data ← construct type (target type) none
        return ⟨index, data⟩
  else throw .illFormed

def ofValue (conversions : Conversions τ V) (argument : Argument τ V) : Exec (Variant types V) :=
  ofForwarded conversions argument.deduced fun type =>
    conversions.convert argument.category argument.isConst argument.type type argument.value

/-- `variant(T&&)` from a variant. -/
def ofVariantForwarded (conversions : Conversions τ V) (category : ValueCategory) (isConst : Bool)
    (other : Variant types V) : Exec (Variant types V) :=
  ofForwarded conversions (.variant isConst) (conversions.convertVariant category isConst other.contents)

/-- The constructor template is the better match for a variant that the other
constructors would bind with `const` added, if it takes part at all. -/
def takesTemplate (conversions : Conversions τ V) (types : Pack τ) (category : ValueCategory) (isConst : Bool) :
    Bool :=
  match category, isConst with
  | .lvalue, false | .rvalue, true => isValidType conversions (.variant isConst) types.types
  | .lvalue, true | .rvalue, false => false

/-- The constructor that a variant given as an argument selects, and what becomes
of that variant. -/
def ofVariant (conversions : Conversions τ V) (category : ValueCategory) (isConst : Bool)
    (other : Variant types V) : Exec (Variant types V × Variant types V) :=
  match category, isConst with
  | .rvalue, false => other.moveOf
  | _, _ => do
      if takesTemplate conversions types category isConst then
        return (← other.ofVariantForwarded conversions category isConst, other)
      else
        return (← other.copyOf, other)

/-- `~variant()`; the storage is gone with whatever is in it. -/
def destroyed (variant : Variant types V) : Exec Unit := do
  let _ ← destroy types.types variant.typeIndex variant.data

/-! ## Assignment -/

def swap (lhs rhs : Variant types V) : Exec (Variant types V × Variant types V) := do
  -- `tmpData` is storage too, but nothing destroys what is constructed in it.
  let tmpData ← copy types.types rhs.typeIndex rhs.data none
  let rhsData ← copy types.types lhs.typeIndex lhs.data rhs.data
  let lhsData ← copy types.types rhs.typeIndex tmpData lhs.data
  return (⟨rhs.typeIndex, lhsData⟩, ⟨lhs.typeIndex, rhsData⟩)

/-- `swap(*this, temp)`, and then the end of `temp`. -/
def swapIn (variant temp : Variant types V) : Exec (Variant types V) := do
  let (variant, temp) ← variant.swap temp
  temp.destroyed
  return variant

/-- `operator=(variant other)`, whose parameter has been initialised. -/
def assign (variant other : Variant types V) : Exec (Variant types V) := variant.swapIn other

/-- `operator=(T const& other)`. -/
def assignConstRef (conversions : Conversions τ V) (type : τ) (other : V type) (variant : Variant types V) :
    Exec (Variant types V) := do
  let temp ← ofValue conversions ⟨.lvalue, true, type, other⟩
  variant.swapIn temp

/-- `operator=(T&& rhs)`. -/
def assignForward (conversions : Conversions τ V) (rhs : Argument τ V) (variant : Variant types V) :
    Exec (Variant types V) := do
  let temp ← ofValue conversions rhs
  variant.swapIn temp

/-- The operator that an argument selects: a constant lvalue fits both templates,
and `T const&` is the more special one. -/
def assignValue (conversions : Conversions τ V) (rhs : Argument τ V) (variant : Variant types V) :
    Exec (Variant types V) :=
  match rhs.category, rhs.isConst with
  | .lvalue, true => variant.assignConstRef conversions rhs.type rhs.value
  | _, _ => variant.assignForward conversions rhs

/-! ## The two states

A variant is full, with an object of its own, or it is vacant, with storage that
may be empty or not.
-/

def full (type : τ) (serial : Nat) (value : V type) : Variant types V :=
  ⟨indexOf type types, some ⟨serial, type, value⟩⟩

omit [DecidableEq τ] in
/-- Without an object of its own. -/
def vacant (data : Storage τ V) : Variant types V := ⟨invalidTypeIndex, data⟩

/-- The states that the members keep to. -/
inductive Sound : Variant types V → Prop
  | full {type : τ} (member : type ∈ types.types) (serial : Nat) (value : V type) :
      Sound (full type serial value)
  | vacant (data : Storage τ V) : Sound (vacant data)

section Full

variable {type : τ} (member : type ∈ types.types) (serial : Nat) (value : V type)

include member

theorem valid_full : (full type serial value : Variant types V).valid = true := by
  rw [valid, full, bne_iff_ne, Ne, indexOf_eq_invalid_iff, not_not]
  exact member

theorem contents_full : (full type serial value : Variant types V).contents = some ⟨type, value⟩ := by
  rw [contents, if_pos (valid_full member serial value)]
  rfl

theorem is_full {other : τ} (member' : other ∈ types.types) :
    (full type serial value : Variant types V).is other = decide (type = other) := by
  rw [is, full]
  exact decide_eq_decide.mpr (indexOf_inj member member')

variable {m : Type → Type} [Monad m] [MonadExceptOf Failure m]

omit member in
theorem get_full : (full type serial value : Variant types V).get (m := m) type = pure value := by
  rw [get, full, indexOf, if_pos rfl, read_some]

end Full

omit [DecidableEq τ] in
theorem contents_vacant (data : Storage τ V) : (vacant data : Variant types V).contents = none := by
  rw [contents, if_neg]
  simp [valid, vacant]

theorem is_vacant (data : Storage τ V) {type : τ} (member : type ∈ types.types) :
    (vacant data : Variant types V).is type = false := by
  rw [is, vacant, decide_eq_false_iff_not]
  intro same
  exact (indexOf_eq_invalid_iff.mp same.symm) member

/-! ## What the members do to the objects -/

section Effects

variable {type other : τ} (member : type ∈ types.types) (member' : other ∈ types.types)
  (serial serial' : Nat) (value : V type) (value' : V other) (data data' : Storage τ V) (ledger : Ledger)

section One

include member

theorem copy_full : copy types.types (indexOf type types) (some ⟨serial, type, value⟩) data ledger =
    .ok (some ⟨ledger.constructed, type, value⟩, ledger.construct data) := by
  rw [copy, atIndex_indexOf member, read_some]
  rfl

theorem copyOf_full : copyOf (full type serial value : Variant types V) ledger =
    .ok (full type ledger.constructed value, ledger.construct (none : Storage τ V)) := by
  simp only [copyOf, full, bind, StateT.bind, copy_full member]
  rfl

theorem moveOf_full : moveOf (full type serial value : Variant types V) ledger =
    .ok ((full type ledger.constructed value, vacant (some ⟨serial, type, value⟩)),
      ledger.construct (none : Storage τ V)) := by
  have moved : move types.types (indexOf type types) (some ⟨serial, type, value⟩) none ledger =
      .ok (some ⟨ledger.constructed, type, value⟩, ledger.construct (none : Storage τ V)) := by
    rw [move, atIndex_indexOf member, read_some]
    rfl
  simp only [moveOf, full, bind, StateT.bind, moved]
  rfl

theorem destroyed_full : destroyed (full type serial value : Variant types V) ledger =
    .ok ((), ledger.destroy serial) := by
  have destroyed : destroy types.types (indexOf type types) (some ⟨serial, type, value⟩) ledger =
      .ok (none, ledger.destroy serial) := by
    rw [destroy, atIndex_indexOf member, destruct]
    simp
  simp only [Variant.destroyed, full, bind, StateT.bind, destroyed]
  rfl

end One

theorem copy_vacant : copy types.types invalidTypeIndex data data' ledger = .ok (data', ledger) := by
  rw [copy, atIndex_invalid types.small]
  rfl

theorem copyOf_vacant : copyOf (vacant data : Variant types V) ledger = .ok (vacant none, ledger) := by
  simp only [copyOf, vacant, bind, StateT.bind, copy_vacant]
  rfl

theorem moveOf_vacant : moveOf (vacant data : Variant types V) ledger =
    .ok ((vacant none, vacant data), ledger) := by
  have moved : move types.types invalidTypeIndex data none ledger = .ok (none, ledger) := by
    rw [move, atIndex_invalid types.small]
    rfl
  simp only [moveOf, vacant, bind, StateT.bind, moved]
  rfl

theorem destroyed_vacant : destroyed (vacant data : Variant types V) ledger = .ok ((), ledger) := by
  have destroyed : destroy types.types invalidTypeIndex data ledger = .ok (data, ledger) := by
    rw [destroy, atIndex_invalid types.small]
    rfl
  simp only [Variant.destroyed, vacant, bind, StateT.bind, destroyed]
  rfl

/-- The constructor template constructs the alternative it selects. -/
theorem ofForwarded_eq (conversions : Conversions τ V) (source : Deduced τ) (target : (type : τ) → V type) :
    (ofForwarded conversions source target : Exec (Variant types V)) ledger =
      (match selected conversions source types with
        | some type => .ok (full type ledger.constructed (target type),
            ledger.construct (none : Storage τ V))
        | none => .error .illFormed) := by
  rw [ofForwarded]
  cases found : selected conversions source types with
  | none =>
      rw [if_neg]
      · rfl
      · rw [isValidType_iff, found]
        simp
  | some type =>
      obtain ⟨-, -, index, selects⟩ := valueTraits_of_selected found
      rw [if_pos ((isValidType_iff conversions source).mpr ⟨type, found⟩)]
      simp only [index, selects]
      rfl

/-! Which constructor a variant as an argument selects. -/

/-- `std::move(other)`, which is not constant. -/
def moves (category : ValueCategory) (isConst : Bool) : Prop := category = .rvalue ∧ isConst = false

theorem ofVariant_moves (conversions : Conversions τ V) {category : ValueCategory} {isConst : Bool}
    (isMove : moves category isConst) (variant : Variant types V) :
    ofVariant conversions category isConst variant = variant.moveOf := by
  obtain ⟨rfl, rfl⟩ := isMove
  rfl

omit [DecidableEq τ] in
theorem not_moves_of_takes {conversions : Conversions τ V} {category : ValueCategory} {isConst : Bool}
    (takes : takesTemplate conversions types category isConst = true) : ¬ moves category isConst := by
  intro ⟨isRvalue, notConst⟩
  subst isRvalue notConst
  cases takes

theorem ofVariant_takes {conversions : Conversions τ V} {category : ValueCategory} {isConst : Bool}
    (takes : takesTemplate conversions types category isConst = true) (variant : Variant types V) :
    ∃ type ∈ types.types, selected conversions (.variant isConst) types = some type ∧
      ofVariant conversions category isConst variant ledger =
        .ok ((full type ledger.constructed (conversions.convertVariant category isConst variant.contents type),
          variant), ledger.construct (none : Storage τ V)) := by
  have isValid : isValidType conversions (.variant isConst) types.types = true := by
    cases category <;> cases isConst <;> first | exact takes | cases takes
  obtain ⟨type, found⟩ := (isValidType_iff conversions _).mp isValid
  refine ⟨type, (valueTraits_of_selected found).1, found, ?_⟩
  have made : ofVariantForwarded conversions category isConst variant ledger =
      .ok (full type ledger.constructed (conversions.convertVariant category isConst variant.contents type),
        ledger.construct (none : Storage τ V)) := by
    rw [ofVariantForwarded, ofForwarded_eq, found]
  have notMoved := not_moves_of_takes takes
  rw [ofVariant]
  · simp only [takes, if_true, bind, StateT.bind, made]
    rfl
  · intro isRvalue notConst
    exact notMoved ⟨isRvalue, notConst⟩

theorem ofVariant_copies {conversions : Conversions τ V} {category : ValueCategory} {isConst : Bool}
    (takes : takesTemplate conversions types category isConst = false) (notMoved : ¬ moves category isConst)
    {variant new : Variant types V} {ledger after : Ledger} (copied : variant.copyOf ledger = .ok (new, after)) :
    ofVariant conversions category isConst variant ledger = .ok ((new, variant), after) := by
  rw [ofVariant]
  · simp only [takes, Bool.false_eq_true, if_false, bind, StateT.bind, copied]
    rfl
  · intro isRvalue notConst
    exact notMoved ⟨isRvalue, notConst⟩

/-! A swap with a full operand constructs up to three objects and destroys none. -/

theorem swapIn_full_full (member : type ∈ types.types) (member' : other ∈ types.types) :
    swapIn (full type serial value : Variant types V) (full other serial' value') ledger =
      .ok (full other (ledger.constructed + 2) value',
        (((ledger.construct (none : Storage τ V)).construct (some ⟨serial', other, value'⟩)).construct
          (some ⟨serial, type, value⟩)).destroy (ledger.constructed + 1)) := by
  have swapped : swap (full type serial value : Variant types V) (full other serial' value') ledger =
      .ok ((full other (ledger.constructed + 2) value', full type (ledger.constructed + 1) value),
        ((ledger.construct (none : Storage τ V)).construct (some ⟨serial', other, value'⟩)).construct
          (some ⟨serial, type, value⟩)) := by
    simp only [swap, full, bind, StateT.bind, Except.bind, copy_full member, copy_full member']
    rfl
  simp only [swapIn, bind, StateT.bind, swapped, Except.bind, destroyed_full member]
  rfl

theorem swapIn_full_vacant (member : type ∈ types.types) :
    swapIn (full type serial value : Variant types V) (vacant data) ledger =
      .ok (vacant (some ⟨serial, type, value⟩), (ledger.construct data).destroy ledger.constructed) := by
  have swapped : swap (full type serial value : Variant types V) (vacant data) ledger =
      .ok ((vacant (some ⟨serial, type, value⟩), full type ledger.constructed value),
        ledger.construct data) := by
    simp only [swap, full, vacant, bind, StateT.bind, Except.bind, copy_full member, copy_vacant]
    rfl
  simp only [swapIn, bind, StateT.bind, swapped, Except.bind, destroyed_full member]
  rfl

theorem swapIn_vacant_full (member : type ∈ types.types) :
    swapIn (vacant data : Variant types V) (full type serial value) ledger =
      .ok (full type (ledger.constructed + 1) value,
        (ledger.construct (none : Storage τ V)).construct data) := by
  have swapped : swap (vacant data : Variant types V) (full type serial value) ledger =
      .ok ((full type (ledger.constructed + 1) value, vacant (some ⟨serial, type, value⟩)),
        (ledger.construct (none : Storage τ V)).construct data) := by
    simp only [swap, full, vacant, bind, StateT.bind, Except.bind, copy_full member, copy_vacant]
    rfl
  simp only [swapIn, bind, StateT.bind, swapped, Except.bind, destroyed_vacant]
  rfl

theorem swapIn_vacant_vacant :
    swapIn (vacant data : Variant types V) (vacant data') ledger = .ok (vacant data, ledger) := by
  have swapped : swap (vacant data : Variant types V) (vacant data') ledger =
      .ok ((vacant data, vacant data'), ledger) := by
    simp only [swap, vacant, bind, StateT.bind, Except.bind, copy_vacant]
    rfl
  simp only [swapIn, bind, StateT.bind, swapped, Except.bind, destroyed_vacant]
  rfl

/-- A full variant swapped in is what the variant is from then on. -/
theorem swapIn_sound_full {variant : Variant types V} (sound : variant.Sound) (member : type ∈ types.types) :
    ∃ serial' after, variant.swapIn (full type serial value) ledger = .ok (full type serial' value, after) := by
  cases sound with
  | full member' serial' value' =>
      exact ⟨_, _, swapIn_full_full serial' serial value' value ledger member' member⟩
  | vacant data => exact ⟨_, _, swapIn_vacant_full serial value data ledger member⟩

end Effects

end Variant

end Snowlake
