import Mathlib.Algebra.Order.Ring.Int
import Mathlib.Algebra.Order.Ring.Unbundled.Rat
import Snowlake.Lib.Comparison
import Snowlake.Variant.Agreement

/-! # Comparing variants

Variants that hold different alternatives are compared by their indices, others
by a visit.  Two empty variants have the same index, and the visit throws.
-/

namespace Snowlake.Variant

open Objects VariantImpl Comparison

variable {τ : Type} {V : τ → Type} {types : Pack τ} [DecidableEq τ]

/-- A comparison of the alternatives, each with itself. -/
abbrev Comp (τ : Type) (V : τ → Type) := (type : τ) → V type → V type → Bool

/-- `comparer::operator()`. -/
def comparer (comp : Comp τ V) (lhs : Variant types V) (type : τ) (rhsVal : V type) : Except Failure Bool := do
  let lhsVal ← lhs.get type
  return comp type lhsVal rhsVal

/-- `operator==`. -/
def equal (equalTo : Comp τ V) (lhs rhs : Variant types V) : Except Failure Bool :=
  if lhs.typeIndex ≠ rhs.typeIndex then return false
  else rhs.visitConst (comparer equalTo lhs)

/-- `operator!=`. -/
def notEqual (equalTo : Comp τ V) (lhs rhs : Variant types V) : Except Failure Bool := do
  return !(← lhs.equal equalTo rhs)

/-- `operator<`. -/
def less (lessThan : Comp τ V) (lhs rhs : Variant types V) : Except Failure Bool :=
  if lhs.which ≠ rhs.which then return decide (lhs.which < rhs.which)
  else rhs.visitConst (comparer lessThan lhs)

/-! ## Full variants -/

/-- The number of an alternative as `which` gives it. -/
def frontIndex (types : Pack τ) (type : τ) : Int :=
  (packSize types.types - indexOf type types - 1).toUInt32.toInt32.toInt

theorem frontIndex_inj {type other : τ} (member : type ∈ types.types) (member' : other ∈ types.types)
    (same : frontIndex types type = frontIndex types other) : type = other := by
  obtain ⟨before, after, split, index⟩ := indexOf_split member
  obtain ⟨before', after', split', index'⟩ := indexOf_split member'
  rw [frontIndex, frontIndex, toInt_front split index, toInt_front split' index'] at same
  obtain ⟨-, tails⟩ := List.append_inj (split.symm.trans split') (by exact_mod_cast same)
  exact (List.cons.inj tails).1

section Full

variable {type other : τ} (member : type ∈ types.types) (member' : other ∈ types.types)
  (serial serial' : Nat) (value : V type) (value' : V other)

include member

/-- Under one index the stored values are compared. -/
theorem visitConst_comparer (comp : Comp τ V) (value' : V type) :
    (full type serial' value' : Variant types V).visitConst
        (comparer comp (full type serial value : Variant types V)) =
      .ok (comp type value value') := by
  obtain ⟨before, after, split, index⟩ := indexOf_split member
  rw [visitConst, dispatch_at types.small (constOperand_at split index serial' value'), comparer, get_full,
    pure_bind]
  rfl

include member'

theorem equal_full (equalTo : Comp τ V) :
    (full type serial value : Variant types V).equal equalTo (full other serial' value') =
      .ok (lexEqual equalTo ⟨type, value⟩ ⟨other, value'⟩) := by
  rw [equal]
  by_cases same : type = other
  · subst same
    rw [if_neg (by simp [full]), visitConst_comparer member, lexEqual_same]
  · have different : (full type serial value : Variant types V).typeIndex ≠
        (full other serial' value' : Variant types V).typeIndex := by
      change indexOf type types ≠ indexOf other types
      rwa [Ne, indexOf_inj member member']
    rw [if_pos different, lexEqual_ne same]
    rfl

theorem less_full (lessThan : Comp τ V) :
    (full type serial value : Variant types V).less lessThan (full other serial' value') =
      .ok (lexLess (frontIndex types) lessThan ⟨type, value⟩ ⟨other, value'⟩) := by
  rw [less]
  by_cases same : type = other
  · subst same
    rw [if_neg (by simp [full, which]), visitConst_comparer member, lexLess_same]
  · have different : (full type serial value : Variant types V).which ≠
        (full other serial' value' : Variant types V).which := by
      intro whichs
      exact same (frontIndex_inj member member' (congrArg Int32.toInt whichs))
    rw [if_pos different, lexLess_ne same]
    refine congrArg Except.ok (decide_eq_decide.mpr ?_)
    exact Int32.lt_iff_toInt_lt

end Full

/-! ## Sets of variants -/

/-- On these variants no comparison throws and the laws hold. -/
def ComparesOn (equalTo lessThan : Comp τ V) (member : Variant types V → Prop) : Prop :=
  ∃ isEqual isLess : Variant types V → Variant types V → Bool,
    (∀ lhs rhs, member lhs → member rhs →
      lhs.equal equalTo rhs = .ok (isEqual lhs rhs) ∧
        lhs.notEqual equalTo rhs = .ok (!isEqual lhs rhs) ∧
        lhs.less lessThan rhs = .ok (isLess lhs rhs)) ∧
      Compares member isEqual isLess

/-- `==` of each alternative is an equivalence, and `<` a strict weak order that fits it. -/
def LawfulAlternatives (types : Pack τ) (equalTo lessThan : Comp τ V) : Prop :=
  ∀ type ∈ types.types, Compares (fun _ => True) (equalTo type) (lessThan type)

/-- An empty variant cannot be compared with itself. -/
theorem equal_empty (equalTo : Comp τ V) {variant : Variant types V} (isEmpty : variant.valid = false) :
    variant.equal equalTo variant = .error (.thrown "unary dispatch failed") := by
  rw [equal, if_neg (by simp)]
  exact (visitsThrow_of_empty isEmpty).visitConst _

/-- Full variants are compared by what they hold, and the laws carry over. -/
theorem comparesOn_of_valid {equalTo lessThan : Comp τ V} (lawful : LawfulAlternatives types equalTo lessThan)
    {member : Variant types V → Prop} (sound : ∀ variant, member variant → variant.Sound)
    (valid : ∀ variant, member variant → variant.valid = true) : ComparesOn equalTo lessThan member := by
  have isFull (variant : Variant types V) (inside : member variant) :
      ∃ type ∈ types.types, ∃ serial value, variant = full type serial value := by
    rcases sound_cases (sound variant inside) with ⟨isEmpty, -⟩ | ⟨-, found⟩
    · rw [valid variant inside] at isEmpty
      cases isEmpty
    · exact found
  have laws : Compares (fun x : (type : τ) × V type => x.1 ∈ types.types) (lexEqual equalTo)
      (lexLess (frontIndex types) lessThan) :=
    Compares.lex lawful fun type inside other inside' => frontIndex_inj inside inside'
  refine ⟨_, _, ?_, laws.comap contents ?_⟩
  · intro lhs rhs left right
    obtain ⟨type, inList, serial, value, rfl⟩ := isFull lhs left
    obtain ⟨other, inList', serial', value', rfl⟩ := isFull rhs right
    have equals := equal_full inList inList' serial serial' value value' equalTo
    rw [contents_full inList, contents_full inList']
    refine ⟨equals, ?_, less_full inList inList' serial serial' value value' lessThan⟩
    rw [notEqual, equals]
    rfl
  · intro variant inside
    obtain ⟨type, inList, serial, value, rfl⟩ := isFull variant inside
    exact ⟨_, contents_full inList serial value, inList⟩

/-- The comparisons of variants obey the laws, without throwing, on just those
sets of variants that hold something. -/
theorem comparesOn_iff (conversions : Conversions τ V) {equalTo lessThan : Comp τ V}
    (lawful : LawfulAlternatives types equalTo lessThan) {member : Variant types V → Prop}
    (reachable : ∀ variant, member variant → Reachable conversions variant) :
    ComparesOn equalTo lessThan member ↔ ∀ variant, member variant → variant.valid = true := by
  constructor
  · intro ⟨isEqual, isLess, answers, _⟩ variant inside
    by_contra isEmpty
    obtain ⟨answered, -⟩ := answers variant variant inside inside
    rw [equal_empty equalTo (by simpa using isEmpty)] at answered
    cases answered
  · intro valid
    exact comparesOn_of_valid lawful (fun variant inside => (reachable variant inside).sound) valid

/-- The comparisons of numbers. -/
def Arithmetic.equalTo : Comp Arithmetic Arithmetic.Value
  | .int => fun x y : Int => decide (x = y)
  | .double => fun x y : Rat => decide (x = y)

def Arithmetic.lessThan : Comp Arithmetic Arithmetic.Value
  | .int => fun x y : Int => decide (x < y)
  | .double => fun x y : Rat => decide (x < y)

theorem lawful_intDouble : LawfulAlternatives intDouble Arithmetic.equalTo Arithmetic.lessThan := by
  intro type _
  cases type with
  | int => exact compares_of_linearOrder Int
  | double => exact compares_of_linearOrder Rat

/-- Two variants that hold something. -/
def OneOrHalf (variant : Variant intDouble Arithmetic.Value) : Prop :=
  variant = full .int 0 (1 : Int) ∨ variant = full .double 0 (mkRat 1 2)

theorem oneOrHalf_comparesOn : ComparesOn Arithmetic.equalTo Arithmetic.lessThan OneOrHalf := by
  refine (comparesOn_iff arithmeticConversions lawful_intDouble ?_).mpr ?_
  · rintro variant (rfl | rfl)
    · exact reachable_one
    · exact reachable_half
  · rintro variant (rfl | rfl)
    · rfl
    · rfl

/-- Two variants that were default-constructed cannot be compared. -/
theorem default_not_comparesOn :
    Reachable arithmeticConversions (default : Variant intDouble Arithmetic.Value) ∧
      equal Arithmetic.equalTo (default : Variant intDouble Arithmetic.Value) default =
        .error (.thrown "unary dispatch failed") ∧
      ¬ ComparesOn Arithmetic.equalTo Arithmetic.lessThan
        (Reachable arithmeticConversions : Variant intDouble Arithmetic.Value → Prop) := by
  have reachable : Reachable arithmeticConversions (default : Variant intDouble Arithmetic.Value) :=
    ⟨[.default 0], _, {}, 0, rfl, rfl⟩
  have throws := equal_empty Arithmetic.equalTo
    (show valid (default : Variant intDouble Arithmetic.Value) = false from rfl)
  refine ⟨reachable, throws, ?_⟩
  intro ⟨isEqual, isLess, answers, _⟩
  obtain ⟨answered, -⟩ := answers _ _ reachable reachable
  rw [throws] at answered
  cases answered

end Snowlake.Variant
