import Snowlake.Ast
import Mathlib.Logic.Function.Basic

/-! # The analyser's helpers on targets

`src/ASTUtils.cpp`.  The target table maps a name to the last target recorded
under it; the source keeps pointers into the immutable tree, here the targets
themselves.
-/

namespace Snowlake

/-- `typedef std::unordered_map<std::string, const ASTDeductionTarget*>`. -/
abbrev TargetTable := StringType → Option ASTDeductionTarget

namespace ASTUtils

def getRootOfASTIdentifiable (identifiable : ASTIdentifiable) : StringType :=
  match identifiable.identifiers with
  | [] => ""
  | front :: _ => front

/-- `AreTargetsCompatible` on two array targets: with or without a size literal,
but both alike. -/
def areArraysCompatible (lhs rhs : Option IntegerType) : Bool :=
  if lhs.isSome && rhs.isSome then true
  else if !lhs.isSome && !rhs.isSome then true
  else false

def areTargetsCompatible : ASTDeductionTarget → ASTDeductionTarget → Bool
  | .singular _, .singular _ => true
  | .array _ lhsSize, .array _ rhsSize => areArraysCompatible lhsSize rhsSize
  | .computed _ _, _ | _, .computed _ _ => true
  -- One is an array and the other singular: an array with a literal names one element.
  | .array _ size, .singular _ | .singular _, .array _ size => size.isSome

def addTargetToTable (target : ASTDeductionTarget) (tbl : TargetTable) : TargetTable :=
  match target with
  | .singular name | .array name _ => Function.update tbl name (some target)
  | .computed _ _ => tbl

def hasCompatibleTargetInTable (target : ASTDeductionTarget) (tbl : TargetTable) : Bool :=
  match target with
  | .singular name =>
      match tbl name with
      | some existing => existing.isSingular
      | none => false
  | .array name size =>
      match tbl name with
      | some (.array _ existingSize) =>
          if size.isSome && !existingSize.isSome then false
          else if !size.isSome && existingSize.isSome then false
          else if size.isSome && existingSize.isSome then size == existingSize
          else true
      | some _ => false
      | none => false
  | .computed _ _ => true

def hasIncompatibleTargetInTable (target : ASTDeductionTarget) (tbl : TargetTable) : Bool :=
  match target with
  | .singular name =>
      match tbl name with
      | some existing => !existing.isSingular
      | none => false
  | .array name size =>
      match tbl name with
      | some (.array _ existingSize) =>
          if size.isSome && !existingSize.isSome then true
          else if !size.isSome && existingSize.isSome then true
          else if size.isSome && existingSize.isSome then size != existingSize
          else false
      | some _ => true
      | none => false
  | .computed _ _ => false

end ASTUtils

/-! ## The form of a target -/

namespace ASTDeductionTarget

/-- Two targets of one form: both singular, or both arrays with the same size
literal or none.  A computed target has the form of no target. -/
def SameForm : ASTDeductionTarget → ASTDeductionTarget → Prop
  | .singular _, .singular _ => True
  | .array _ size, .array _ size' => size = size'
  | _, _ => False

instance : DecidableRel SameForm := fun target other => by
  cases target <;> cases other <;> simp only [SameForm] <;> infer_instance

/-- Operands of one comparison: one is computed, or both denote one element
(singular, or an array with a literal), or both denote whole arrays. -/
def CompatibleOperands : ASTDeductionTarget → ASTDeductionTarget → Prop
  | .computed _ _, _ | _, .computed _ _ => True
  | .singular _, .singular _ => True
  | .array _ size, .array _ size' => size.isSome = size'.isSome
  | .array _ size, .singular _ | .singular _, .array _ size => size.isSome = true

theorem sameForm_self {target : ASTDeductionTarget} {name : StringType}
    (named : target.declaredName = some name) : target.SameForm target := by
  cases target <;> simp_all [SameForm, declaredName]

theorem SameForm.symm {target other : ASTDeductionTarget} (same : target.SameForm other) :
    other.SameForm target := by
  cases target <;> cases other <;> simp_all [SameForm]

theorem SameForm.trans {first second third : ASTDeductionTarget}
    (left : first.SameForm second) (right : second.SameForm third) : first.SameForm third := by
  cases first <;> cases second <;> cases third <;> simp_all [SameForm]

end ASTDeductionTarget

namespace ASTUtils

open ASTDeductionTarget

theorem areTargetsCompatible_iff (lhs rhs : ASTDeductionTarget) :
    areTargetsCompatible lhs rhs = true ↔ lhs.CompatibleOperands rhs := by
  cases lhs <;> cases rhs <;> simp only [areTargetsCompatible, CompatibleOperands]
  case array.array size _ size' => cases size <;> cases size' <;> simp [areArraysCompatible]

/-- A compatible entry is a target of the same form under the same name. -/
theorem hasCompatibleTargetInTable_iff (target : ASTDeductionTarget) (tbl : TargetTable) :
    hasCompatibleTargetInTable target tbl = true ↔
      ∀ name, target.declaredName = some name →
        ∃ existing, tbl name = some existing ∧ target.SameForm existing := by
  cases target with
  | computed => simp [hasCompatibleTargetInTable, declaredName]
  | singular name =>
      cases found : tbl name with
      | none => simp [hasCompatibleTargetInTable, declaredName, found]
      | some existing =>
          cases existing <;> simp [hasCompatibleTargetInTable, declaredName, found, SameForm, isSingular]
  | array name size =>
      cases found : tbl name with
      | none => simp [hasCompatibleTargetInTable, declaredName, found]
      | some existing =>
          cases existing with
          | singular | computed => simp [hasCompatibleTargetInTable, declaredName, found, SameForm]
          | array _ existingSize =>
              cases size <;> cases existingSize <;>
                simp [hasCompatibleTargetInTable, declaredName, found, SameForm]

/-- An incompatible entry is a target of another form under the same name. -/
theorem hasIncompatibleTargetInTable_iff (target : ASTDeductionTarget) (tbl : TargetTable) :
    hasIncompatibleTargetInTable target tbl = true ↔
      ∃ name existing, target.declaredName = some name ∧ tbl name = some existing ∧
        ¬ target.SameForm existing := by
  cases target with
  | computed => simp [hasIncompatibleTargetInTable, declaredName]
  | singular name =>
      cases found : tbl name with
      | none => simp [hasIncompatibleTargetInTable, declaredName, found]
      | some existing =>
          cases existing <;>
            simp [hasIncompatibleTargetInTable, declaredName, found, SameForm, isSingular]
  | array name size =>
      cases found : tbl name with
      | none => simp [hasIncompatibleTargetInTable, declaredName, found]
      | some existing =>
          cases existing with
          | singular | computed => simp [hasIncompatibleTargetInTable, declaredName, found, SameForm]
          | array _ existingSize =>
              cases size <;> cases existingSize <;>
                simp [hasIncompatibleTargetInTable, declaredName, found, SameForm]

theorem addTargetToTable_of_declaredName {target : ASTDeductionTarget} {name : StringType}
    (named : target.declaredName = some name) (tbl : TargetTable) :
    addTargetToTable target tbl = Function.update tbl name (some target) := by
  cases target with
  | singular | array => simp only [declaredName, Option.some.injEq] at named; subst named; rfl
  | computed => simp [declaredName] at named

theorem addTargetToTable_of_computed {target : ASTDeductionTarget}
    (unnamed : target.declaredName = none) (tbl : TargetTable) :
    addTargetToTable target tbl = tbl := by
  cases target with
  | singular | array => simp [declaredName] at unnamed
  | computed => rfl

end ASTUtils

end Snowlake
