import Snowlake.AstUtils
import Mathlib.Data.List.Induction

/-! # What a target table answers

The table keeps the last target recorded under each name.  Its two queries are
written out separately in the source; on a table that only
`addTargetToTable` wrote they are complements for every name it knows.
-/

namespace Snowlake.ASTUtils

open ASTDeductionTarget

/-- The table a sequence of targets leaves when they are added to the empty one. -/
def addTargetsToTable (targets : List ASTDeductionTarget) : TargetTable :=
  targets.foldl (fun tbl target => addTargetToTable target tbl) fun _ => none

/-- The last target that declares a name. -/
def latest (targets : List ASTDeductionTarget) (name : StringType) : Option ASTDeductionTarget :=
  targets.reverse.find? fun target => target.declaredName == some name

theorem addTargetsToTable_concat (targets : List ASTDeductionTarget) (last : ASTDeductionTarget) :
    addTargetsToTable (targets ++ [last]) = addTargetToTable last (addTargetsToTable targets) := by
  simp only [addTargetsToTable, List.foldl_append, List.foldl_cons, List.foldl_nil]

/-- The entry under the name that a target declares is that target; adding
touches no other. -/
theorem addTargetToTable_apply (target : ASTDeductionTarget) (tbl : TargetTable) (name : StringType) :
    addTargetToTable target tbl name =
      if target.declaredName = some name then some target else tbl name := by
  cases declared : target.declaredName with
  | none => simp [addTargetToTable_of_computed declared]
  | some key =>
      rw [addTargetToTable_of_declaredName declared]
      by_cases same : key = name
      · simp [same]
      · rw [Function.update_of_ne (Ne.symm same)]
        simp [same]

theorem addTargetsToTable_eq_latest (targets : List ASTDeductionTarget) (name : StringType) :
    addTargetsToTable targets name = latest targets name := by
  induction targets using List.reverseRecOn with
  | nil => rfl
  | append_singleton targets last ih =>
      rw [addTargetsToTable_concat, addTargetToTable_apply, ih]
      by_cases declares : last.declaredName = some name
      · simp [latest, declares]
      · simp [latest, declares]

/-- The queries look only at the entry under the name of the target they are asked about. -/
theorem answers_congr {tbl tbl' : TargetTable} {other : ASTDeductionTarget}
    (agree : ∀ name, other.declaredName = some name → tbl name = tbl' name) :
    hasCompatibleTargetInTable other tbl = hasCompatibleTargetInTable other tbl' ∧
      hasIncompatibleTargetInTable other tbl = hasIncompatibleTargetInTable other tbl' := by
  cases other with
  | computed => exact ⟨rfl, rfl⟩
  | singular name | array name size =>
      have same := agree name rfl
      constructor
      · simp only [hasCompatibleTargetInTable, same]
      · simp only [hasIncompatibleTargetInTable, same]

theorem hasIncompatibleTargetInTable_iff_not_compatible {target : ASTDeductionTarget}
    {name : StringType} (declared : target.declaredName = some name) (tbl : TargetTable) :
    hasIncompatibleTargetInTable target tbl = true ↔
      (tbl name).isSome = true ∧ hasCompatibleTargetInTable target tbl = false := by
  rw [← Bool.not_eq_true, hasIncompatibleTargetInTable_iff, hasCompatibleTargetInTable_iff]
  simp only [declared, Option.some.injEq, forall_eq', exists_and_left, exists_eq_left']
  cases found : tbl name with
  | none => simp
  | some existing => simp

/-- Right after it was added, a target is compatible with the table. -/
theorem hasCompatibleTargetInTable_add (target : ASTDeductionTarget) (tbl : TargetTable) :
    hasCompatibleTargetInTable target (addTargetToTable target tbl) = true := by
  rw [hasCompatibleTargetInTable_iff]
  intro name declared
  refine ⟨target, ?_, sameForm_self declared⟩
  rw [addTargetToTable_apply, if_pos declared]

/-- What the two queries promise about a table. -/
structure AnswersAgree (tbl : TargetTable) : Prop where
  /-- Every entry stands under its own name, so no entry is computed. -/
  keyed : ∀ name existing, tbl name = some existing → existing.declaredName = some name
  /-- For a target with a name the queries are complements once the name is known. -/
  complement : ∀ (target : ASTDeductionTarget) (name : StringType),
    target.declaredName = some name →
      (hasIncompatibleTargetInTable target tbl = true ↔
        (tbl name).isSome = true ∧ ¬ hasCompatibleTargetInTable target tbl = true)
  /-- Adding a target with a name makes it compatible. -/
  added : ∀ (target : ASTDeductionTarget) (name : StringType), target.declaredName = some name →
    hasCompatibleTargetInTable target (addTargetToTable target tbl) = true
  /-- Adding it changes no answer about a target that has not its name. -/
  others : ∀ (target other : ASTDeductionTarget) (name : StringType),
    target.declaredName = some name → other.declaredName ≠ some name →
      hasCompatibleTargetInTable other (addTargetToTable target tbl) =
          hasCompatibleTargetInTable other tbl ∧
        hasIncompatibleTargetInTable other (addTargetToTable target tbl) =
          hasIncompatibleTargetInTable other tbl

theorem addTargetsToTable_answersAgree (targets : List ASTDeductionTarget) :
    AnswersAgree (addTargetsToTable targets) := by
  constructor
  case keyed =>
    intro name existing found
    rw [addTargetsToTable_eq_latest] at found
    have declares := List.find?_some found
    simpa using declares
  case complement =>
    intro target name declared
    rw [Bool.not_eq_true]
    exact hasIncompatibleTargetInTable_iff_not_compatible declared _
  case added =>
    intro target name declared
    exact hasCompatibleTargetInTable_add target _
  case others =>
    intro target other name declared different
    apply answers_congr
    intro otherName otherDeclared
    rw [addTargetToTable_apply, if_neg]
    intro clash
    obtain rfl := Option.some.inj (declared.symm.trans clash)
    exact different otherDeclared

end Snowlake.ASTUtils
