import Mathlib.Data.List.TakeWhile
import Snowlake.Variant.Contents

/-! # Optionals

`src/optional.h`.  An optional is a variant of `nullopt_t` and the type of its
value, and empty in two ways: with the `nullopt_t`, or when it was reset or moved
from, without either.  A program over optionals is compared with one over
variables that are none or some value.
-/

namespace Snowlake

open Objects VariantImpl Variant

/-- The types of an `optional<T>`, and the value `nullopt_t{}`. -/
structure OptionalTypes (τ : Type) (V : τ → Type) where
  nullopt : τ
  noValue : V nullopt
  /-- `T`. -/
  type : τ

variable {τ : Type} {V : τ → Type}

/-- `ValueType`. -/
def OptionalTypes.valueType (types : OptionalTypes τ V) : Pack τ := ⟨[types.nullopt, types.type], by simp⟩

/-- `optional<T>`, which is its member `m_value`. -/
abbrev Optional (types : OptionalTypes τ V) := Variant types.valueType V

namespace Optional

variable {types : OptionalTypes τ V} [DecidableEq τ] (conversions : Conversions τ V)

/-- `optional()`. -/
def default : Exec (Optional types) :=
  Variant.ofValue conversions ⟨.rvalue, false, types.nullopt, types.noValue⟩

/-- `optional(const T& val)`. -/
def ofValue (val : V types.type) : Exec (Optional types) :=
  Variant.ofValue conversions ⟨.lvalue, true, types.type, val⟩

/-- `operator=(T&& value)`, in which `value` is a name. -/
def assignValue (value : V types.type) (optional : Optional types) : Exec (Optional types) :=
  optional.assignForward conversions ⟨.lvalue, false, types.type, value⟩

def hasValue (optional : Optional types) : Bool := optional.is types.type

def value {m : Type → Type} [Monad m] [MonadExceptOf Failure m] (optional : Optional types) :
    m (V types.type) :=
  if optional.hasValue then optional.get types.type else throw (.aborted "has_value()")

def reset (optional : Optional types) : Exec (Optional types) := do
  let value : Optional types := Variant.default
  let (other, value) ← value.ofVariant conversions .lvalue false
  let optional ← optional.assign other
  value.destroyed
  return optional

/-! The members that the compiler defines. -/

def copyOf (other : Optional types) : Exec (Optional types) := do
  let (optional, _) ← other.ofVariant conversions .lvalue true
  return optional

def moveOf (other : Optional types) : Exec (Optional types × Optional types) :=
  other.ofVariant conversions .rvalue false

def assignCopy (optional other : Optional types) : Exec (Optional types) := do
  let (parameter, _) ← other.ofVariant conversions .lvalue true
  optional.assign parameter

def assignMove (optional other : Optional types) : Exec (Optional types × Optional types) := do
  let (parameter, other) ← other.ofVariant conversions .rvalue false
  return (← optional.assign parameter, other)

/-- `optional = val` of a value that cannot be moved from: it makes an optional. -/
def assignConstRef (val : V types.type) (optional : Optional types) : Exec (Optional types) := do
  let temp ← ofValue conversions val
  let (optional, temp) ← optional.assignMove conversions temp
  temp.destroyed
  return optional

/-- `*optional = value`. -/
def write (value : V types.type) (optional : Optional types) : Exec (Optional types) := do
  let _ ← optional.value
  return optional.put types.type value

/-! ## Programs -/

inductive Operation (α : Type) where
  | default (name : Nat)
  | ofValue (name : Nat) (val : α)
  | copyOf (name source : Nat)
  | moveOf (name source : Nat)
  | assignCopy (name source : Nat)
  /-- From another variable. -/
  | assignMove (name source : Nat)
  | assignValue (name : Nat) (value : α)
  | assignConstRef (name : Nat) (val : α)
  | write (name : Nat) (value : α)
  | reset (name : Nat)
  | destroy (name : Nat)

/-- The variables of a program. -/
abbrev Variables (types : OptionalTypes τ V) := Variant.World types.valueType V

def step (world : Variables types) : Operation (V types.type) → Exec (Variables types)
  | .default name => do world.declare name (← default conversions)
  | .ofValue name val => do world.declare name (← ofValue conversions val)
  | .copyOf name source => do
      let other ← world.find source
      world.declare name (← copyOf conversions other)
  | .moveOf name source => do
      let other ← world.find source
      let (optional, other) ← moveOf conversions other
      Variant.World.declare (world.insert source other) name optional
  | .assignCopy name source => do
      let other ← world.find source
      let optional ← world.find name
      return world.insert name (← assignCopy conversions optional other)
  | .assignMove name source =>
      if name = source then throw .illFormed
      else do
        let other ← world.find source
        let optional ← world.find name
        let (optional, other) ← assignMove conversions optional other
        return AList.insert name optional (world.insert source other)
  | .assignValue name value => do
      let optional ← world.find name
      return world.insert name (← assignValue conversions value optional)
  | .assignConstRef name val => do
      let optional ← world.find name
      return world.insert name (← assignConstRef conversions val optional)
  | .write name value => do
      let optional ← world.find name
      return world.insert name (← write value optional)
  | .reset name => do
      let optional ← world.find name
      return world.insert name (← reset conversions optional)
  | .destroy name => do
      let optional ← world.find name
      Variant.destroyed optional
      return world.erase name

def run (operations : List (Operation (V types.type))) : Exec (Variables types) :=
  operations.foldlM (step conversions) ∅

end Optional

/-! ## The model -/

/-- Variables that are none or some value. -/
abbrev Options (α : Type) := Table Nat (Option α)

namespace Options

open Optional (Operation)

variable {α : Type}

def find (options : Options α) (name : Nat) : Except Failure (Option α) :=
  match options.lookup name with
  | some option => .ok option
  | none => .error .illFormed

def declare (options : Options α) (name : Nat) (option : Option α) : Except Failure (Options α) :=
  if name ∈ options then .error .illFormed else .ok (options.insert name option)

/-- The value, which must be there. -/
def value : Option α → Except Failure α
  | some value => .ok value
  | none => .error (.aborted "has_value()")

def step (options : Options α) : Operation α → Except Failure (Options α)
  | .default name => options.declare name none
  | .ofValue name val => options.declare name (some val)
  | .copyOf name source => do
      let other ← options.find source
      options.declare name other
  | .moveOf name source => do
      let other ← options.find source
      declare (options.insert source none) name other
  | .assignCopy name source => do
      let other ← options.find source
      let _ ← options.find name
      return options.insert name other
  | .assignMove name source =>
      if name = source then .error .illFormed
      else do
        let other ← options.find source
        let _ ← options.find name
        return AList.insert name other (options.insert source none)
  | .assignValue name value | .assignConstRef name value => do
      let _ ← options.find name
      return options.insert name (some value)
  | .write name value => do
      let option ← options.find name
      let _ ← Options.value option
      return options.insert name (some value)
  | .reset name => do
      let _ ← options.find name
      return options.insert name none
  | .destroy name => do
      let _ ← options.find name
      return options.erase name

def run (operations : List (Operation α)) : Except Failure (Options α) := operations.foldlM step ∅

end Options

namespace Optional

variable {types : OptionalTypes τ V} [DecidableEq τ] (conversions : Conversions τ V)

/-- What `has_value` and `value` show. -/
structure Shows (optional : Optional types) (option : Option (V types.type)) : Prop where
  hasValue : optional.hasValue = option.isSome
  value : optional.value = Options.value option

variable (types) in
/-- Every program ends as it does in the model, with variables that show what they
are there. -/
def RefinesOption : Prop :=
  ∀ operations : List (Operation (V types.type)),
    Refines (Table.Related Shows) (run conversions operations : Exec (Variables types))
      (Options.run operations)

variable (types) in
/-- The variant can tell a value from none: `T` is not `nullopt_t`, no constant
value of it converts to `nullopt_t`, and the constructor template does not take a
variant for a `T`. -/
structure Separates : Prop where
  distinct : types.nullopt ≠ types.type
  notConvertible : V types.type → conversions.isConvertible (.value true types.type) types.nullopt = false
  notSelected : selected conversions (.variant false) types.valueType ≠ some types.type

/-! ## What an optional stands for -/

/-- What the contents of the variant stand for. -/
inductive Means : Option ((type : τ) × V type) → Option (V types.type) → Prop
  | some (value : V types.type) : Means (some ⟨types.type, value⟩) (some value)
  | nullopt (value : V types.nullopt) : Means (some ⟨types.nullopt, value⟩) none
  | empty : Means none none

def Represents (optional : Optional types) (option : Option (V types.type)) : Prop :=
  ∃ contents, Holds optional contents ∧ Means contents option

omit [DecidableEq τ] in
theorem mem_type : types.type ∈ types.valueType.types := by simp [OptionalTypes.valueType]

omit [DecidableEq τ] in
theorem mem_nullopt : types.nullopt ∈ types.valueType.types := by simp [OptionalTypes.valueType]

omit [DecidableEq τ] in
theorem type_cases {type : τ} (member : type ∈ types.valueType.types) :
    type = types.nullopt ∨ type = types.type := by
  simpa [OptionalTypes.valueType] using member

theorem default_holds :
    Refines Holds (default conversions : Exec (Optional types)) (.ok (some ⟨types.nullopt, types.noValue⟩)) :=
  Holds.ofValue conversions mem_nullopt (.inl rfl)

/-! ## What `reset` assigns -/

section Reset

variable {conversions}

theorem reset_of_made {optional : Optional types} {contents after : Option ((type : τ) × V type)}
    (holds : Holds optional contents)
    (made : Refines (fun made contents => Holds made.1 contents ∧ made.2 = Variant.default)
      (Variant.ofVariant conversions .lvalue false (Variant.default : Optional types)) (.ok after)) :
    Refines Holds (reset conversions optional) (.ok after) := by
  refine Refines.step made ?_
  intro ⟨other, value⟩ ⟨isMade, isLeft⟩
  subst isLeft
  refine Refines.step (holds.assign isMade) ?_
  intro assigned isAssigned
  refine Refines.step Holds.default.destroyed ?_
  intro _ _
  exact Refines.pure isAssigned

theorem reset_holds {type : τ} (found : selected conversions (.variant false) types.valueType = some type)
    {optional : Optional types} {contents : Option ((type : τ) × V type)} (holds : Holds optional contents) :
    Refines Holds (reset conversions optional)
      (.ok (some ⟨type, conversions.convertVariant .lvalue false none type⟩)) := by
  have takes : takesTemplate conversions types.valueType .lvalue false = true :=
    (isValidType_iff conversions _).mpr ⟨type, found⟩
  refine reset_of_made holds (Refines.of_ok fun ledger => ?_)
  obtain ⟨other, member, found', ran⟩ := ofVariant_takes ledger takes (Variant.default : Optional types)
  obtain rfl := Option.some.inj (found.symm.trans found')
  exact ⟨_, _, ran, .full member _ _, rfl⟩

theorem reset_holds_none (notFound : selected conversions (.variant false) types.valueType = none)
    {optional : Optional types} {contents : Option ((type : τ) × V type)} (holds : Holds optional contents) :
    Refines Holds (reset conversions optional) (.ok none) := by
  have notTaken : takesTemplate conversions types.valueType .lvalue false = false := by
    rw [takesTemplate, Bool.eq_false_iff, Ne, isValidType_iff, notFound]
    simp
  refine reset_of_made holds (Refines.of_ok fun ledger => ?_)
  have copied := @copyOf_vacant τ V types.valueType _ none ledger
  exact ⟨_, _, ofVariant_copies notTaken (by simp [moves]) copied, .vacant none, rfl⟩

end Reset

section Separates

variable {conversions} (separates : Separates types conversions) {optional : Optional types}
  {option : Option (V types.type)}

include separates

theorem Represents.hasValue (represents : Represents optional option) : optional.hasValue = option.isSome := by
  obtain ⟨contents, holds, means⟩ := represents
  rw [Optional.hasValue]
  cases means with
  | some value =>
      rw [holds.is mem_type]
      exact decide_eq_true rfl
  | nullopt value =>
      rw [holds.is mem_type]
      exact decide_eq_false separates.distinct
  | empty => exact holds.not_is mem_type

theorem Represents.value {m : Type → Type} [Monad m] [MonadExceptOf Failure m]
    (represents : Represents optional option) :
    optional.value (m := m) =
      (match option with
        | some value => Pure.pure value
        | none => throw (.aborted "has_value()")) := by
  have has := represents.hasValue separates
  obtain ⟨contents, holds, means⟩ := represents
  rw [Optional.value, has]
  cases means with
  | some value => exact holds.get
  | nullopt value => rfl
  | empty => rfl

theorem Represents.shows (represents : Represents optional option) : Shows optional option :=
  ⟨represents.hasValue separates, by rw [represents.value separates]; cases option <;> rfl⟩

/-! ## One operation -/

omit separates in
theorem refines_of_holds {program : Exec (Optional types)} {contents : Option ((type : τ) × V type)}
    (holds : Refines Holds program (.ok contents)) (means : Means contents option) :
    Refines Represents program (.ok option) := by
  refine Refines.of_ok fun ledger => ?_
  obtain ⟨made, after, ran, isHeld⟩ := holds.returns ledger
  exact ⟨made, after, ran, contents, isHeld, means⟩

omit separates in
theorem default_represents : Refines Represents (default conversions : Exec (Optional types)) (.ok none) := by
  exact refines_of_holds (default_holds conversions) (.nullopt types.noValue)

theorem ofValue_represents (val : V types.type) :
    Refines Represents (ofValue conversions val : Exec (Optional types)) (.ok (some val)) := by
  refine refines_of_holds (Holds.ofValue conversions mem_type (.inr ?_)) (.some val)
  intro other earlier
  have different := List.mem_takeWhile_imp earlier
  rcases type_cases (List.takeWhile_subset _ earlier) with same | same
  · rw [same]
    exact separates.notConvertible val
  · simp [same] at different

omit separates in
theorem assignValue_represents (represents : Represents optional option) (value : V types.type) :
    Refines Represents (assignValue conversions value optional) (.ok (some value)) := by
  obtain ⟨contents, holds, means⟩ := represents
  exact refines_of_holds (holds.assignForward conversions mem_type (.inl rfl)) (.some value)

omit separates in
theorem copyOf_represents (represents : Represents optional option) :
    Refines Represents (copyOf conversions optional) (.ok option) := by
  obtain ⟨contents, holds, means⟩ := represents
  refine Refines.step (holds.copied conversions) ?_
  intro ⟨made, other⟩ ⟨isHeld, _⟩
  exact Refines.pure ⟨contents, isHeld, means⟩

omit separates in
theorem moveOf_represents (represents : Represents optional option) :
    Refines (fun made option => Represents made.1 option ∧ Represents made.2 none)
      (moveOf conversions optional) (.ok option) := by
  obtain ⟨contents, holds, means⟩ := represents
  refine Refines.of_ok fun ledger => ?_
  obtain ⟨made, after, ran, isHeld, isEmpty⟩ := (holds.moved conversions).returns ledger
  exact ⟨made, after, ran, ⟨contents, isHeld, means⟩, none, isEmpty, .empty⟩

omit separates in
theorem assign_represents {parameter : Optional types} {option' : Option (V types.type)}
    (represents : Represents optional option) (represents' : Represents parameter option') :
    Refines Represents (optional.assign parameter) (.ok option') := by
  obtain ⟨contents, holds, means⟩ := represents
  obtain ⟨contents', holds', means'⟩ := represents'
  exact refines_of_holds (holds.assign holds') means'

omit separates in
theorem assignCopy_represents {other : Optional types} {option' : Option (V types.type)}
    (represents : Represents optional option) (represents' : Represents other option') :
    Refines Represents (assignCopy conversions optional other) (.ok option') := by
  obtain ⟨contents, holds, means⟩ := represents'
  refine Refines.step (holds.copied conversions) ?_
  intro ⟨parameter, other⟩ ⟨isHeld, _⟩
  exact assign_represents represents ⟨contents, isHeld, means⟩

omit separates in
theorem assignMove_represents {other : Optional types} {option' : Option (V types.type)}
    (represents : Represents optional option) (represents' : Represents other option') :
    Refines (fun made option => Represents made.1 option ∧ Represents made.2 none)
      (assignMove conversions optional other) (.ok option') := by
  refine Refines.step (moveOf_represents represents') ?_
  intro ⟨parameter, other⟩ ⟨isMoved, isLeft⟩
  refine Refines.step (assign_represents represents isMoved) ?_
  intro assigned isAssigned
  exact Refines.pure ⟨isAssigned, isLeft⟩

omit separates in
theorem destroyed_represents (represents : Represents optional option) :
    Refines (fun _ _ => True) (Variant.destroyed optional) (.ok ()) := by
  obtain ⟨contents, holds, _⟩ := represents
  exact holds.destroyed

theorem assignConstRef_represents (represents : Represents optional option) (val : V types.type) :
    Refines Represents (assignConstRef conversions val optional) (.ok (some val)) := by
  refine Refines.step (ofValue_represents separates val) ?_
  intro temp isMade
  refine Refines.step (assignMove_represents represents isMade) ?_
  intro ⟨assigned, temp⟩ ⟨isAssigned, isLeft⟩
  refine Refines.step (destroyed_represents isLeft) ?_
  intro _ _
  exact Refines.pure isAssigned

theorem write_represents (represents : Represents optional option) (value : V types.type) :
    Refines Represents (write value optional) (Options.value option >>= fun _ => .ok (some value)) := by
  rw [write, represents.value separates]
  obtain ⟨contents, holds, means⟩ := represents
  cases means with
  | some old => exact Refines.pure ⟨_, holds.put value, .some value⟩
  | nullopt _ => exact Refines.throw _
  | empty => exact Refines.throw _

/-- The variant that `reset` assigns holds a `nullopt_t` or nothing. -/
theorem reset_represents (represents : Represents optional option) :
    Refines Represents (reset conversions optional) (.ok none) := by
  obtain ⟨contents, holds, _⟩ := represents
  cases found : selected conversions (.variant false) types.valueType with
  | none => exact refines_of_holds (reset_holds_none found holds) .empty
  | some type =>
      have isNullopt : type = types.nullopt := by
        rcases type_cases (valueTraits_of_selected found).1 with same | same
        · exact same
        · subst same
          exact absurd found separates.notSelected
      subst isNullopt
      exact refines_of_holds (reset_holds found holds) (.nullopt _)

/-! ## Programs -/

omit separates in
theorem find_represents {world : Variables types} {options : Options (V types.type)}
    (related : Table.Related Represents world options) (name : Nat) :
    Refines Represents (world.find name) (options.find name) := by
  have values := related.lookup name
  rw [Variant.World.find, Options.find]
  generalize world.lookup name = found at values ⊢
  generalize options.lookup name = option at values ⊢
  cases values with
  | none => exact Refines.throw _
  | some represents => exact Refines.pure represents

omit separates in
theorem declare_represents {world : Variables types} {options : Options (V types.type)}
    (related : Table.Related Represents world options) (represents : Represents optional option) (name : Nat) :
    Refines (Table.Related Represents) (world.declare name optional) (options.declare name option) := by
  rw [Variant.World.declare, Options.declare]
  by_cases known : name ∈ options
  · rw [if_pos known, if_pos ((related.mem_iff name).mpr known)]
    exact Refines.throw _
  · rw [if_neg known, if_neg fun known' => known ((related.mem_iff name).mp known')]
    exact Refines.pure (related.insert name represents)

/-- One operation is the same operation of the model. -/
theorem step_represents {world : Variables types} {options : Options (V types.type)}
    (related : Table.Related Represents world options) (operation : Operation (V types.type)) :
    Refines (Table.Related Represents) (step conversions world operation) (options.step operation) := by
  cases operation with
  | default name =>
      refine Refines.step default_represents ?_
      intro optional isMade
      exact declare_represents related isMade name
  | ofValue name val =>
      refine Refines.step (ofValue_represents separates val) ?_
      intro optional isMade
      exact declare_represents related isMade name
  | copyOf name source =>
      refine Refines.bind (find_represents related source) ?_
      intro other option represents
      refine Refines.step (copyOf_represents represents) ?_
      intro optional isMade
      exact declare_represents related isMade name
  | moveOf name source =>
      refine Refines.bind (find_represents related source) ?_
      intro other option represents
      refine Refines.step (moveOf_represents represents) ?_
      intro ⟨optional, other⟩ ⟨isMade, isLeft⟩
      exact declare_represents (related.insert source isLeft) isMade name
  | assignCopy name source =>
      refine Refines.bind (find_represents related source) ?_
      intro other option represents
      refine Refines.bind (find_represents related name) ?_
      intro optional old represents'
      refine Refines.step (assignCopy_represents represents' represents) ?_
      intro assigned isAssigned
      exact Refines.pure (related.insert name isAssigned)
  | assignMove name source =>
      rw [step, Options.step]
      by_cases same : name = source
      · rw [if_pos same, if_pos same]
        exact Refines.throw _
      · rw [if_neg same, if_neg same]
        refine Refines.bind (find_represents related source) ?_
        intro other option represents
        refine Refines.bind (find_represents related name) ?_
        intro optional old represents'
        refine Refines.step (assignMove_represents represents' represents) ?_
        intro ⟨assigned, other⟩ ⟨isAssigned, isLeft⟩
        exact Refines.pure ((related.insert source isLeft).insert name isAssigned)
  | assignValue name value =>
      refine Refines.bind (find_represents related name) ?_
      intro optional old represents
      refine Refines.step (assignValue_represents represents value) ?_
      intro assigned isAssigned
      exact Refines.pure (related.insert name isAssigned)
  | assignConstRef name val =>
      refine Refines.bind (find_represents related name) ?_
      intro optional old represents
      refine Refines.step (assignConstRef_represents separates represents val) ?_
      intro assigned isAssigned
      exact Refines.pure (related.insert name isAssigned)
  | write name value =>
      refine Refines.bind (find_represents related name) ?_
      intro optional old represents
      have wrote := Refines.bind (write_represents separates represents value) fun _ _ isMade =>
        Refines.pure (related.insert name isMade)
      cases old with
      | none => exact wrote
      | some _ => exact wrote
  | reset name =>
      refine Refines.bind (find_represents related name) ?_
      intro optional old represents
      refine Refines.step (reset_represents separates represents) ?_
      intro assigned isAssigned
      exact Refines.pure (related.insert name isAssigned)
  | destroy name =>
      refine Refines.bind (find_represents related name) ?_
      intro optional old represents
      refine Refines.step (destroyed_represents represents) ?_
      intro _ _
      exact Refines.pure (related.erase name)

theorem run_represents (operations : List (Operation (V types.type))) :
    Refines (Table.Related Represents) (run conversions operations : Exec (Variables types))
      (Options.run operations) :=
  Refines.foldlM (fun _ _ operation related => step_represents separates related operation) operations
    Table.related_empty

end Separates

/-! ## The converse -/

/-- A variable shows what it is in the model. -/
theorem hasValue_of_refines (refines : RefinesOption types conversions)
    {operations : List (Operation (V types.type))} {options : Options (V types.type)}
    {world : Variables types} {ledger : Ledger} {name : Nat} {optional : Optional types}
    {option : Option (V types.type)} (specified : Options.run operations = .ok options)
    (ran : run conversions operations {} = .ok (world, ledger)) (found : world.lookup name = some optional)
    (found' : options.lookup name = some option) : optional.hasValue = option.isSome := by
  have ends := refines operations {}
  rw [ran, specified] at ends
  cases ends with
  | ok related =>
      have values := Table.Related.lookup related name
      rw [found, found'] at values
      cases values with
      | some shows => exact shows.hasValue

theorem run_concat (operations : List (Operation (V types.type))) (last : Operation (V types.type)) :
    (run conversions (operations ++ [last]) : Exec (Variables types)) =
      run conversions operations >>= fun world => step conversions world last := by
  simp only [run, List.foldlM_append, List.foldlM_cons, List.foldlM_nil, bind_pure]

theorem run_declare {operation : Operation (V types.type)} {name : Nat} {make : Exec (Optional types)}
    (steps : step conversions ∅ operation = make >>= Variant.World.declare ∅ name) {optional : Optional types}
    {after : Ledger} (made : make {} = .ok (optional, after)) :
    run conversions [operation] {} = .ok ((∅ : Variables types).insert name optional, after) := by
  rw [run, List.foldlM_cons, steps]
  simp only [List.foldlM_nil, bind_pure]
  rw [bind_ok made]
  rfl

/-- The program that only default-constructs a variable. -/
theorem run_default : ∃ (initial : Optional types) (before : Ledger),
    run conversions [.default 0] {} = .ok ((∅ : Variables types).insert 0 initial, before) ∧
      Holds initial (some ⟨types.nullopt, types.noValue⟩) := by
  obtain ⟨initial, before, made, isInitial⟩ := (@default_holds τ V types _ conversions).returns {}
  exact ⟨initial, before, run_declare conversions rfl made, isInitial⟩

/-- Were `T` the `nullopt_t`, none would look like a value. -/
theorem distinct_of_refines (refines : RefinesOption types conversions) : types.nullopt ≠ types.type := by
  intro same
  obtain ⟨initial, before, ran, isInitial⟩ := @run_default τ V types _ conversions
  have specified : Options.run [.default 0] = .ok ((∅ : Options (V types.type)).insert 0 none) := rfl
  have shown := hasValue_of_refines conversions refines specified ran (AList.lookup_insert _)
    (AList.lookup_insert _)
  rw [hasValue, isInitial.is mem_type, decide_eq_true same] at shown
  cases shown

/-- A value that is stored as `nullopt_t` looks like none. -/
theorem notConvertible_of_refines (refines : RefinesOption types conversions) (val : V types.type) :
    conversions.isConvertible (.value true types.type) types.nullopt = false := by
  by_contra isConvertible
  let argument : Argument τ V := ⟨.lvalue, true, types.type, val⟩
  have found : selected conversions argument.deduced types.valueType = some types.nullopt := by
    simp only [Bool.not_eq_false] at isConvertible
    simp [selected, Argument.deduced, argument, OptionalTypes.valueType, isSame, isConvertible]
  have made : ofValue conversions val {} = _ := ofValue_selected conversions found {}
  have specified : Options.run [.ofValue 0 val] = .ok ((∅ : Options (V types.type)).insert 0 (some val)) := rfl
  have shown := hasValue_of_refines conversions refines specified (run_declare conversions rfl made)
    (AList.lookup_insert _) (AList.lookup_insert _)
  rw [hasValue, is_full mem_nullopt _ _ mem_type, decide_eq_false (distinct_of_refines conversions refines)]
    at shown
  cases shown

/-- What `reset` makes of an empty variant looks like a value if it is a `T`. -/
theorem notSelected_of_refines (refines : RefinesOption types conversions) :
    selected conversions (.variant false) types.valueType ≠ some types.type := by
  intro found
  obtain ⟨initial, before, ran, isInitial⟩ := @run_default τ V types _ conversions
  obtain ⟨optional, after, wasReset, isHeld⟩ := (reset_holds found isInitial).returns before
  have ran' : run conversions [.default 0, .reset 0] {} =
      .ok (((∅ : Variables types).insert 0 initial).insert 0 optional, after) := by
    refine (congrFun (run_concat conversions [.default 0] (.reset 0)) {}).trans ?_
    rw [bind_ok ran, step, bind_ok (Variant.World.find_some (AList.lookup_insert _) _), bind_ok wasReset]
    rfl
  have specified : Options.run [.default 0, .reset 0] =
      .ok (AList.insert 0 none ((∅ : Options (V types.type)).insert 0 none)) := rfl
  have shown := hasValue_of_refines conversions refines specified ran' (AList.lookup_insert _)
    (AList.lookup_insert _)
  rw [hasValue, isHeld.is mem_type, decide_eq_true rfl] at shown
  cases shown

/-- Optionals refine the model just when their variant can tell a value from none. -/
theorem refinesOption_iff : RefinesOption types conversions ↔ Separates types conversions := by
  constructor
  · intro refines
    exact ⟨distinct_of_refines conversions refines, notConvertible_of_refines conversions refines,
      notSelected_of_refines conversions refines⟩
  · intro separates operations
    refine (run_represents separates operations).mono ?_
    intro world options related
    exact Table.Related.mono related fun _ _ represents => represents.shows separates

/-! ## Values that look like none -/

/-- Of a `Marker` there is a conversion to `nullopt_t`, and to an `Any` there is one
from everything. -/
inductive Element where
  | nullopt
  | marker
  | any
  deriving Repr, DecidableEq

/-- An `Any` holds a number, or it was made of something else. -/
def Element.Value : Element → Type
  | .nullopt | .marker => Unit
  | .any => Option Nat

def Element.convert : (source target : Element) → source.Value → target.Value
  | .any, .any, value => value
  | _, .any, _ => (none : Option Nat)
  | _, .nullopt, _ => ()
  | _, .marker, _ => ()

def elementConversions : Conversions Element Element.Value where
  isConvertible
    | .value _ source, target => source = target || target = .any || (source = .marker && target = .nullopt)
    | .variant _, target => target = .any
  convert _ _ := Element.convert
  convertVariant _ _ _
    | .any => (none : Option Nat)
    | .nullopt | .marker => ()
  isConvertible_self _ type := by simp
  convert_self _ _ type _ := by cases type <;> rfl

def markerTypes : OptionalTypes Element Element.Value := ⟨.nullopt, (), .marker⟩

def anyTypes : OptionalTypes Element Element.Value := ⟨.nullopt, (), .any⟩

def markerProgram : List (Operation (Element.Value markerTypes.type)) := [.ofValue 0 ()]

def anyProgram : List (Operation (Element.Value anyTypes.type)) := [.ofValue 0 (some 5 : Option Nat), .reset 0]

/-- An optional of a `Marker` has no value, and one of an `Any` keeps one when it is reset. -/
theorem element_not_refines :
    (run elementConversions markerProgram {} =
        .ok ((∅ : Variables markerTypes).insert 0 (full .nullopt 0 ()), ⟨1, [], []⟩) ∧
      ¬ RefinesOption markerTypes elementConversions) ∧
    run elementConversions anyProgram {} =
        .ok ((∅ : Variables anyTypes).insert 0 (full .any 4 (none : Option Nat)),
          ⟨5, [3], [1, 0]⟩) ∧
      ¬ RefinesOption anyTypes elementConversions := by
  have ran : run elementConversions markerProgram {} =
      .ok ((∅ : Variables markerTypes).insert 0 (full .nullopt 0 ()), ⟨1, [], []⟩) := rfl
  have ran' : run elementConversions anyProgram {} =
      .ok ((∅ : Variables anyTypes).insert 0 (full .any 4 (none : Option Nat)),
        ⟨5, [3], [1, 0]⟩) := rfl
  refine ⟨⟨ran, ?_⟩, ran', ?_⟩
  · intro refines
    have specified : Options.run markerProgram = .ok ((∅ : Options Unit).insert 0 (some ())) := rfl
    have shown := hasValue_of_refines elementConversions refines specified ran (AList.lookup_insert _)
      (AList.lookup_insert _)
    exact absurd shown (by decide)
  · intro refines
    have specified : Options.run anyProgram = .ok ((∅ : Options (Option Nat)).insert 0 none) := rfl
    have shown := hasValue_of_refines elementConversions refines specified ran' (AList.lookup_insert _)
      (AList.lookup_insert _)
    exact absurd shown (by decide)

end Optional

end Snowlake
