import Snowlake.Variant.Dispatcher
import Snowlake.Variant.Lifetimes

/-! # One alternative for every search

A variant numbers its alternative from the back.  The helper, the access members
and the dispatchers recurse over the list each on its own, and all of them come
to the alternative that is stored.
-/

namespace Snowlake.Variant

open Objects VariantImpl

variable {τ : Type} {V : τ → Type} {types : Pack τ}

/-- Alternative number `k` from the front, counted from 0. -/
structure HoldsAlternative (variant : Variant types V) (k : Nat) (type : τ) (value : V type) : Prop where
  contents : variant.contents = some ⟨type, value⟩
  number : types.types[k]? = some type

variable [DecidableEq τ]

/-- Everything that goes by the index comes to alternative `k`. -/
structure AgreesOn (variant : Variant types V) (k : Nat) (type : τ) (value : V type) : Prop where
  typeIndex : variant.typeIndex.toNat = types.types.length - 1 - k
  which : variant.which.toInt = k
  is : ∀ other ∈ types.types, (variant.is other = true ↔ other = type)
  get : ∀ {m : Type → Type} [Monad m] [MonadExceptOf Failure m], variant.get (m := m) type = pure value
  getOther : ∀ {m : Type → Type} [Monad m] [MonadExceptOf Failure m], ∀ other ∈ types.types, other ≠ type →
    variant.get (m := m) other = throw (.thrown "failed get<T>() in variant type")
  selectType : selectType (UInt64.ofNat k) types.types = some type ∧
    selectType (packSize types.types - variant.typeIndex - 1) types.types = some type
  copy : ∀ target, copy types.types variant.typeIndex variant.data target = construct type value target
  move : ∀ target, move types.types variant.typeIndex variant.data target = construct type value target
  destroy : ∃ serial, variant.data = some ⟨serial, type, value⟩ ∧ ∀ ledger,
    destroy types.types variant.typeIndex variant.data ledger = .ok (none, ledger.destroy serial)
  visitConst : ∀ {R : Type} {m : Type → Type} [Monad m] [LawfulMonad m] [MonadExceptOf Failure m]
    (f : (type : τ) → V type → m R), variant.visitConst f = f type value
  visit : ∀ {R : Type} {m : Type → Type} [Monad m] [LawfulMonad m] [MonadExceptOf Failure m]
    (f : (type : τ) → V type → m (R × V type)),
    variant.visit f = f type value >>= fun left => pure (left.1, variant.put type left.2)

/-- A visit of two variants calls the visitor with the values of both, in order. -/
structure AgreesOnBoth (v0 v1 : Variant types V) (left right : τ) (value0 : V left) (value1 : V right) :
    Prop where
  visitConst : ∀ {R : Type} {m : Type → Type} [Monad m] [LawfulMonad m] [MonadExceptOf Failure m]
    (f : (left right : τ) → V left → V right → m R),
    v0.binaryVisitConst v1 f = f left right value0 value1
  visit : ∀ {R : Type} {m : Type → Type} [Monad m] [LawfulMonad m] [MonadExceptOf Failure m]
    (f : (left right : τ) → V left → V right → m (R × V left × V right)),
    v0.binaryVisit v1 f = f left right value0 value1 >>= fun after =>
      pure (after.1, v0.put left after.2.1, v1.put right after.2.2)

/-- Visits of an empty variant throw, and call nothing. -/
structure VisitsThrow (variant : Variant types V) : Prop where
  visitConst : ∀ {R : Type} {m : Type → Type} [Monad m] [MonadExceptOf Failure m]
    (f : (type : τ) → V type → m R),
    variant.visitConst f = throw (.thrown "unary dispatch failed")
  visit : ∀ {R : Type} {m : Type → Type} [Monad m] [MonadExceptOf Failure m]
    (f : (type : τ) → V type → m (R × V type)),
    variant.visit f = throw (.thrown "unary dispatch failed")

structure BinaryVisitsThrow (v0 v1 : Variant types V) : Prop where
  visitConst : ∀ {R : Type} {m : Type → Type} [Monad m] [MonadExceptOf Failure m]
    (f : (left right : τ) → V left → V right → m R),
    v0.binaryVisitConst v1 f = throw (.thrown "binary dispatch failed")
  visit : ∀ {R : Type} {m : Type → Type} [Monad m] [MonadExceptOf Failure m]
    (f : (left right : τ) → V left → V right → m (R × V left × V right)),
    v0.binaryVisit v1 f = throw (.thrown "binary dispatch failed")

/-! ## Full variants -/

theorem sound_cases {variant : Variant types V} (sound : variant.Sound) :
    (variant.valid = false ∧ ∃ data, variant = vacant data) ∨
      variant.valid = true ∧ ∃ type ∈ types.types, ∃ serial value, variant = full type serial value := by
  cases sound with
  | full member serial value => exact .inr ⟨valid_full member serial value, _, member, serial, value, rfl⟩
  | vacant data => exact .inl ⟨valid_vacant data, data, rfl⟩

theorem full_of_holds {variant : Variant types V} (sound : variant.Sound) {k : Nat} {type : τ} {value : V type}
    (holds : variant.HoldsAlternative k type value) :
    type ∈ types.types ∧ ∃ serial, variant = full type serial value := by
  refine ⟨List.mem_of_getElem? holds.number, ?_⟩
  have contents := holds.contents
  cases sound with
  | full member serial stored =>
      rw [contents_full member] at contents
      cases contents
      exact ⟨serial, rfl⟩
  | vacant data =>
      rw [contents_vacant] at contents
      cases contents

section Full

variable {type : τ} {before after : List τ} (split : types.types = before ++ type :: after)
  (index : indexOf type types = packSize after) (serial : Nat) (value : V type)

include split index

theorem constOperand_at {m : Type → Type} [Monad m] [MonadExceptOf Failure m] :
    (constOperand (full type serial value : Variant types V) : Operand m V).At types.types before type after
      value :=
  ⟨split, index, get_full serial value⟩

theorem operand_at {m : Type → Type} [Monad m] [LawfulMonad m] [MonadExceptOf Failure m] :
    (operand (full type serial value : Variant types V) : Operand m (Reference types V)).At types.types before
      type after (value, put type (full type serial value)) := by
  refine ⟨split, index, ?_⟩
  simp only [operand, get_full, pure_bind]

end Full

omit [DecidableEq τ] in
/-- What `which` makes of the number of an alternative. -/
theorem toInt_front {typeIndex : SizeT} {before after : List τ} {type : τ}
    (split : types.types = before ++ type :: after) (index : typeIndex = packSize after) :
    (packSize types.types - typeIndex - 1).toUInt32.toInt32.toInt = before.length := by
  have small := types.small
  rw [split] at small
  have front : packSize types.types - typeIndex - 1 = packSize before := by
    rw [split, index, packSize_sub small]
  rw [List.length_append] at small
  have narrowed : (packSize before).toUInt32.toNat = before.length := by
    rw [UInt64.toNat_toUInt32, toNat_packSize (by omega)]
    omega
  rw [front, Int32.toInt, UInt32.toBitVec_toInt32, BitVec.toInt_eq_toNat_of_lt]
  · exact congrArg Int.ofNat narrowed
  · change 2 * (packSize before).toUInt32.toNat < 2 ^ 32
    omega

/-- A full variant agrees on the alternative it holds. -/
theorem agreesOn_of_holds (distinct : types.types.Nodup) {variant : Variant types V} (sound : variant.Sound)
    {k : Nat} {type : τ} {value : V type} (holds : variant.HoldsAlternative k type value) :
    variant.AgreesOn k type value := by
  obtain ⟨member, serial, rfl⟩ := full_of_holds sound holds
  obtain ⟨before, after, split, index⟩ := indexOf_split member
  have small := types.small
  have position : before.length = k := by
    have inRange : before.length < types.types.length := by simp [split]
    apply (List.getElem?_inj inRange distinct).mp
    rw [holds.number, split]
    simp
  rw [split] at small
  constructor
  case typeIndex =>
    change (indexOf type types).toNat = _
    rw [index, split, toNat_packSize (by simp at small; omega)]
    simp
    omega
  case which =>
    exact (toInt_front split index).trans (by rw [position])
  case is =>
    intro other member'
    rw [is_full member serial value member', decide_eq_true_eq, eq_comm]
  case get => exact get_full serial value
  case getOther =>
    intro m _ _ other member' different
    rw [Variant.get, if_neg]
    intro same
    exact different ((indexOf_inj member member').mp same).symm
  case selectType =>
    constructor
    · rw [← position, split]
      exact selectType_append small
    · change selectType (packSize types.types - indexOf type types - 1) types.types = some type
      rw [index, split, packSize_sub small, selectType_append small]
  case copy =>
    intro target
    funext ledger
    exact copy_full member serial value target ledger
  case move =>
    intro target
    change VariantImpl.move types.types (indexOf type types) (some ⟨serial, type, value⟩) target = _
    rw [VariantImpl.move, atIndex_indexOf member, read_some, pure_bind]
  case destroy =>
    refine ⟨serial, rfl, ?_⟩
    intro ledger
    change VariantImpl.destroy types.types (indexOf type types) (some ⟨serial, type, value⟩) ledger = _
    rw [VariantImpl.destroy, atIndex_indexOf member, destruct]
    simp
  case visitConst =>
    intro R m _ _ _ f
    exact dispatch_at types.small (constOperand_at split index serial value) f
  case visit =>
    intro R m _ _ _ f
    exact dispatch_at types.small (operand_at split index serial value) _

theorem agreesOnBoth_of_holds {v0 v1 : Variant types V} (sound0 : v0.Sound) (sound1 : v1.Sound) {k0 k1 : Nat}
    {left right : τ} {value0 : V left} {value1 : V right} (holds0 : v0.HoldsAlternative k0 left value0)
    (holds1 : v1.HoldsAlternative k1 right value1) : AgreesOnBoth v0 v1 left right value0 value1 := by
  obtain ⟨member0, serial0, rfl⟩ := full_of_holds sound0 holds0
  obtain ⟨member1, serial1, rfl⟩ := full_of_holds sound1 holds1
  obtain ⟨before0, after0, split0, index0⟩ := indexOf_split member0
  obtain ⟨before1, after1, split1, index1⟩ := indexOf_split member1
  constructor
  case visitConst =>
    intro R m _ _ _ f
    exact binaryDispatch_at types.small f (constOperand_at split0 index0 serial0 value0)
      (constOperand_at split1 index1 serial1 value1)
  case visit =>
    intro R m _ _ _ f
    exact binaryDispatch_at types.small _ (operand_at split0 index0 serial0 value0)
      (operand_at split1 index1 serial1 value1)

/-! ## Empty variants -/

theorem visitsThrow_of_empty {variant : Variant types V} (isEmpty : variant.valid = false) :
    VisitsThrow variant := by
  have invalid : variant.typeIndex = invalidTypeIndex := by simpa [valid] using isEmpty
  constructor
  · intro R m _ _ f
    exact dispatch_invalid types.small invalid f
  · intro R m _ _ f
    exact dispatch_invalid types.small invalid _

theorem binaryVisitsThrow_of_empty {v0 v1 : Variant types V} (isEmpty : v0.valid = false ∨ v1.valid = false) :
    BinaryVisitsThrow v0 v1 := by
  rcases isEmpty with isEmpty | isEmpty
  · have invalid : v0.typeIndex = invalidTypeIndex := by simpa [valid] using isEmpty
    constructor
    · intro R m _ _ f
      exact binaryDispatch_invalid_left types.small f invalid
    · intro R m _ _ f
      exact binaryDispatch_invalid_left types.small _ invalid
  · have invalid : v1.typeIndex = invalidTypeIndex := by simpa [valid] using isEmpty
    constructor
    · intro R m _ _ f
      exact binaryDispatch_invalid_right types.small f invalid
    · intro R m _ _ f
      exact binaryDispatch_invalid_right types.small _ invalid

/-- Every variant that a program produces is empty, and visits of it throw, or it
holds one alternative, on which everything agrees. -/
theorem indices_agree (conversions : Conversions τ V) (distinct : types.types.Nodup)
    {v0 v1 : Variant types V} (reachable0 : Reachable conversions v0) (reachable1 : Reachable conversions v1) :
    (v0.valid = true ↔ ∃ k type value, v0.HoldsAlternative k type value) ∧
      (∀ k type value, v0.HoldsAlternative k type value → v0.AgreesOn k type value) ∧
      (∀ k0 left value0 k1 right value1, v0.HoldsAlternative k0 left value0 →
        v1.HoldsAlternative k1 right value1 → AgreesOnBoth v0 v1 left right value0 value1) ∧
      (v0.valid = false → VisitsThrow v0) ∧
      (v0.valid = false ∨ v1.valid = false → BinaryVisitsThrow v0 v1) := by
  have sound0 := reachable0.sound
  have sound1 := reachable1.sound
  refine ⟨?_, ?_, ?_, visitsThrow_of_empty, binaryVisitsThrow_of_empty⟩
  · constructor
    · intro isValid
      rcases sound_cases sound0 with ⟨isEmpty, -⟩ | ⟨-, type, member, serial, value, rfl⟩
      · rw [isEmpty] at isValid
        cases isValid
      · obtain ⟨k, number⟩ := List.getElem?_of_mem member
        exact ⟨k, type, value, contents_full member serial value, number⟩
    · intro ⟨k, type, value, holds⟩
      obtain ⟨member, serial, rfl⟩ := full_of_holds sound0 holds
      exact valid_full member serial value
  · intro k type value holds
    exact agreesOn_of_holds distinct sound0 holds
  · intro k0 left value0 k1 right value1 holds0 holds1
    exact agreesOnBoth_of_holds sound0 sound1 holds0 holds1

/-- A `double` as a temporary. -/
def doubleArgument (value : Rat) : Argument Arithmetic Arithmetic.Value := ⟨.rvalue, false, .double, value⟩

theorem reachable_one :
    Reachable arithmeticConversions (full Arithmetic.int 0 (1 : Int) : Variant intDouble Arithmetic.Value) :=
  ⟨[.ofValue 0 (intArgument 1)], (∅ : World _ _).insert 0 (full .int 0 (1 : Int)), ⟨1, [], []⟩, 0, rfl, rfl⟩

theorem reachable_half :
    Reachable arithmeticConversions (full .double 0 (mkRat 1 2) : Variant intDouble Arithmetic.Value) :=
  ⟨[.ofValue 0 (doubleArgument (mkRat 1 2))], (∅ : World _ _).insert 0 (full .double 0 (mkRat 1 2)),
    ⟨1, [], []⟩, 0, rfl, rfl⟩

theorem intDouble_indices_agree :
    AgreesOn (full Arithmetic.int 0 (1 : Int) : Variant intDouble Arithmetic.Value) 0 .int (1 : Int) ∧
      AgreesOnBoth (full Arithmetic.int 0 (1 : Int) : Variant intDouble Arithmetic.Value)
        (full Arithmetic.double 0 (mkRat 1 2)) .int .double (1 : Int) (mkRat 1 2) := by
  have member (type : Arithmetic) : type ∈ intDouble.types := by cases type <;> decide
  have agree := indices_agree arithmeticConversions (by decide) reachable_one reachable_half
  obtain ⟨-, one, both, -, -⟩ := agree
  have holds : HoldsAlternative (full Arithmetic.int 0 (1 : Int) : Variant intDouble Arithmetic.Value) 0 .int
      (1 : Int) := ⟨contents_full (member _) _ _, rfl⟩
  have holds' : HoldsAlternative
      (full Arithmetic.double 0 (mkRat 1 2) : Variant intDouble Arithmetic.Value) 1 .double (mkRat 1 2) :=
    ⟨contents_full (member _) _ _, rfl⟩
  exact ⟨one _ _ _ holds, both _ _ _ _ _ _ holds holds'⟩

end Snowlake.Variant
