import Mathlib.Data.List.Basic

/-! # Abstract syntax of the Snowlake language

The node classes of `src/ast.h`, one type each.  A node is immutable once the
parser has built it, so a class with accessors is a structure with fields.  The
two `variant` members of the source (`ASTDeductionTarget::_value` and
`ASTPremiseDefn::_value`) are inductive types: every constructor of the source
that the parser calls fills the variant, so the empty alternative is not a value.
-/

namespace Snowlake

/-- `StringType`.  A character of a `std::string` is a `Char`. -/
abbrev StringType := String

/-- `IntegerType`, the source's `uint64_t`. -/
abbrev IntegerType := UInt64

/-- `enum class EqualityOperator`. -/
inductive EqualityOperator where
  | operatorEq
  | operatorNeq
  | operatorLt
  | operatorLte
  deriving Repr, DecidableEq

/-- `ASTIdentifier` holds nothing but its `value`. -/
abbrev ASTIdentifier := StringType

/-- `ASTIdentifiable`: the dot-separated components, root first. -/
structure ASTIdentifiable where
  identifiers : List ASTIdentifier
  deriving Repr, DecidableEq

/-- `ASTDeductionTarget`, with the fields of the class each alternative holds. -/
inductive ASTDeductionTarget where
  /-- `ASTDeductionTargetSingular`, written `T`. -/
  | singular (name : StringType)
  /-- `ASTDeductionTargetArray`, written `T[]` or `T[3]`. -/
  | array (name : StringType) (arraySize : Option IntegerType)
  /-- `ASTDeductionTargetComputed`, written `f(t, ...)`. -/
  | computed (name : StringType) (arguments : List ASTDeductionTarget)
  deriving Repr

/-- `ASTPropositionDefn`. -/
structure ASTPropositionDefn where
  target : ASTDeductionTarget
  deriving Repr

/-- `ASTRangeClause`, written `inrange lhsIdx..rhsIdx..deductionTarget`. -/
structure ASTRangeClause where
  lhsIdx : IntegerType
  rhsIdx : IntegerType
  deductionTarget : ASTDeductionTarget
  deriving Repr

/-- `ASTInferenceEqualityDefn`. -/
structure ASTInferenceEqualityDefn where
  lhs : ASTDeductionTarget
  rhs : ASTDeductionTarget
  oprt : EqualityOperator
  rangeClause : Option ASTRangeClause
  deriving Repr

/-- `ASTInferencePremiseDefn`, over the type of the premises its while clause
nests.  The knot is tied in `ASTPremiseDefn`. -/
structure InferencePremiseOf (premise : Type) where
  source : ASTIdentifiable
  deductionTarget : ASTDeductionTarget
  whileClause : Option (List premise)
  deriving Repr

/-- `ASTPremiseDefn`. -/
inductive ASTPremiseDefn where
  | inferencePremise (defn : InferencePremiseOf ASTPremiseDefn)
  | inferenceEquality (defn : ASTInferenceEqualityDefn)

/-- `ASTInferencePremiseDefn`, written `source : target;` or
`source : target while { ... };`. -/
abbrev ASTInferencePremiseDefn := InferencePremiseOf ASTPremiseDefn

/-- `ASTInferenceArgument`. -/
structure ASTInferenceArgument where
  name : StringType
  typeName : StringType
  deriving Repr, DecidableEq

/-- `ASTGlobalDecl`. -/
structure ASTGlobalDecl where
  name : StringType
  deriving Repr, DecidableEq

/-- `ASTInferenceDefn`. -/
structure ASTInferenceDefn where
  name : StringType
  globalDecls : List ASTGlobalDecl
  arguments : List ASTInferenceArgument
  premiseDefns : List ASTPremiseDefn
  propositionDefn : ASTPropositionDefn

/-- `ASTEnvironmentDefn`. -/
structure ASTEnvironmentDefn where
  field : StringType
  value : StringType
  deriving Repr, DecidableEq

/-- `ASTInferenceGroup`. -/
structure ASTInferenceGroup where
  name : StringType
  environmentDefns : List ASTEnvironmentDefn
  inferenceDefns : List ASTInferenceDefn

/-- `ASTModule`. -/
structure ASTModule where
  inferenceGroups : List ASTInferenceGroup

namespace ASTDeductionTarget

/-- The name of a singular or array target; a computed target has none. -/
def declaredName : ASTDeductionTarget → Option StringType
  | .singular name | .array name _ => some name
  | .computed _ _ => none

/-- `isType<ASTDeductionTargetComputed>()`. -/
def isComputed : ASTDeductionTarget → Bool
  | .computed _ _ => true
  | .singular _ | .array _ _ => false

/-- `isType<ASTDeductionTargetSingular>()`. -/
def isSingular : ASTDeductionTarget → Bool
  | .singular _ => true
  | .array _ _ | .computed _ _ => false

end ASTDeductionTarget

namespace ASTPremiseDefn

/-- An inference premise with a while clause. -/
def hasWhileClause : ASTPremiseDefn → Bool
  | .inferencePremise defn => defn.whileClause.isSome
  | .inferenceEquality _ => false

mutual
/-- A premise and all premises nested in it, in document order: a while premise
stands before the premises of its clause. -/
def documentOrder : ASTPremiseDefn → List ASTPremiseDefn
  | .inferencePremise ⟨source, target, none⟩ => [.inferencePremise ⟨source, target, none⟩]
  | .inferencePremise ⟨source, target, some body⟩ =>
      .inferencePremise ⟨source, target, some body⟩ :: documentOrderList body
  | .inferenceEquality defn => [.inferenceEquality defn]

/-- `documentOrder` of a list of premises. -/
def documentOrderList : List ASTPremiseDefn → List ASTPremiseDefn
  | [] => []
  | head :: tail => documentOrder head ++ documentOrderList tail
end

theorem mem_documentOrderList {premises : List ASTPremiseDefn} {nested : ASTPremiseDefn} :
    nested ∈ documentOrderList premises ↔ ∃ premise ∈ premises, nested ∈ premise.documentOrder := by
  induction premises with
  | nil => simp [documentOrderList]
  | cons head tail ih => simp [documentOrderList, ih]

/-- The targets of the inference premises of a list, in the list's order. -/
def targets (premises : List ASTPremiseDefn) : List ASTDeductionTarget :=
  premises.filterMap fun
    | .inferencePremise defn => some defn.deductionTarget
    | .inferenceEquality _ => none

@[simp] theorem targets_nil : targets [] = [] := rfl

@[simp] theorem targets_inferencePremise (defn : ASTInferencePremiseDefn) (rest : List ASTPremiseDefn) :
    targets (.inferencePremise defn :: rest) = defn.deductionTarget :: targets rest := rfl

@[simp] theorem targets_inferenceEquality (defn : ASTInferenceEqualityDefn)
    (rest : List ASTPremiseDefn) :
    targets (.inferenceEquality defn :: rest) = targets rest := rfl

@[simp] theorem targets_append (left right : List ASTPremiseDefn) :
    targets (left ++ right) = targets left ++ targets right :=
  List.filterMap_append

end ASTPremiseDefn

end Snowlake
