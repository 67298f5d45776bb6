import Snowlake.Sema.SemanticAnalyzer
import Mathlib.Data.Finset.Lattice.Lemmas

/-! # What the semantic analyser accepts

A module is accepted exactly if it is well formed, a property stated without
the analyser's walk, its tables or the order of its checks.  The one place
where order matters is a range clause, whose bound has to be declared before it.
-/

namespace Snowlake

open Checking Checking.Check ASTDeductionTarget

/-! ## Well-formed modules -/

/-- Non-computed targets of one name have one form. -/
def ConsistentTargets (targets : List ASTDeductionTarget) : Prop :=
  ∀ target ∈ targets, ∀ other ∈ targets, ∀ name,
    target.declaredName = some name → other.declaredName = some name → target.SameForm other

/-- `target` is computed, or one of `targets` has its name and form. -/
def DeclaredIn (targets : List ASTDeductionTarget) (target : ASTDeductionTarget) : Prop :=
  ∀ name, target.declaredName = some name →
    ∃ declared ∈ targets, declared.declaredName = some name ∧ target.SameForm declared

namespace ASTInferenceDefn

def globalNames (defn : ASTInferenceDefn) : List StringType := defn.globalDecls.map (·.name)

def argumentNames (defn : ASTInferenceDefn) : List StringType := defn.arguments.map (·.name)

/-- All premises of the definition at any depth, in document order. -/
def allPremises (defn : ASTInferenceDefn) : List ASTPremiseDefn :=
  ASTPremiseDefn.documentOrderList defn.premiseDefns

structure WellFormed (warningsAsErrors : Bool) (defn : ASTInferenceDefn) : Prop where
  globals : warningsAsErrors = true → defn.globalNames.Nodup
  arguments : defn.argumentNames.Nodup
  argumentsNotGlobal : ∀ name ∈ defn.argumentNames, name ∉ defn.globalNames
  sources : ∀ premise, .inferencePremise premise ∈ defn.allPremises →
    ASTUtils.getRootOfASTIdentifiable premise.source ∈ defn.globalNames ∨
      ASTUtils.getRootOfASTIdentifiable premise.source ∈ defn.argumentNames
  targets : ConsistentTargets (ASTPremiseDefn.targets defn.allPremises)
  operands : ∀ premise, .inferenceEquality premise ∈ defn.allPremises →
    premise.lhs.CompatibleOperands premise.rhs
  rangeBounds : ∀ before premise rest rangeClause,
    defn.allPremises = before ++ .inferenceEquality premise :: rest →
    premise.rangeClause = some rangeClause →
      rangeClause.deductionTarget.isSingular = false ∧
        DeclaredIn (ASTPremiseDefn.targets before) rangeClause.deductionTarget
  proposition : DeclaredIn (ASTPremiseDefn.targets defn.allPremises) defn.propositionDefn.target

end ASTInferenceDefn

namespace ASTInferenceGroup

def fields (group : ASTInferenceGroup) : List StringType := group.environmentDefns.map (·.field)

/-- Both fixture methods of while clauses are defined; the analyser does not ask for them. -/
def DefinesFixtures (group : ASTInferenceGroup) : Prop :=
  envnDefnKeyForTypeAnnotationSetupMethod ∈ group.fields ∧
    envnDefnKeyForTypeAnnotationTeardownMethod ∈ group.fields

instance (group : ASTInferenceGroup) : Decidable group.DefinesFixtures :=
  inferInstanceAs (Decidable (_ ∧ _))

structure WellFormed (warningsAsErrors : Bool) (group : ASTInferenceGroup) : Prop where
  className : envnDefnKeyForClass ∈ group.fields
  typeClass : envnDefnKeyForTypeClass ∈ group.fields
  proofMethod : envnDefnKeyForProofMethod ∈ group.fields
  typeCmpMethod : envnDefnKeyForTypeCmpMethod ∈ group.fields
  fields : warningsAsErrors = true → group.fields.Nodup
  inferenceNames : (group.inferenceDefns.map (·.name)).Nodup
  inferences : ∀ defn ∈ group.inferenceDefns, defn.WellFormed warningsAsErrors

end ASTInferenceGroup

structure ASTModule.WellFormed (warningsAsErrors : Bool) (module : ASTModule) : Prop where
  groupNames : (module.inferenceGroups.map (·.name)).Nodup
  groups : ∀ group ∈ module.inferenceGroups, group.WellFormed warningsAsErrors

/-- The inference of `docs/source/tutorial.rst`. -/
def staticMethodStaticDispatch : ASTInferenceDefn where
  name := "StaticMethodStaticDispatch"
  globalDecls := [⟨"SELF_TYPE"⟩]
  arguments := [⟨"StaticMethodCallStmt", "ASTExpr"⟩]
  premiseDefns := [
    .inferencePremise ⟨⟨["StaticMethodCallStmt", "argument_types"]⟩,
      .array "ArgumentsTypes" none, none⟩,
    .inferencePremise ⟨⟨["StaticMethodCallStmt", "callee", "parameter_types"]⟩,
      .array "ParameterTypes" none, none⟩,
    .inferenceEquality ⟨.array "ArgumentsTypes" none, .array "ParameterTypes" none,
      .operatorLte, some ⟨0, 1, .array "ParameterTypes" none⟩⟩,
    .inferenceEquality ⟨.array "ArgumentsTypes" (some 0), .singular "SELF_TYPE", .operatorNeq, none⟩,
    .inferencePremise ⟨⟨["StaticMethodCallStmt", "caller_type"]⟩, .singular "CLS_TYPE", some [
      .inferenceEquality ⟨.array "ArgumentsTypes" none, .array "ParameterTypes" none,
        .operatorLte, some ⟨1, 1, .array "ParameterTypes" none⟩⟩]⟩,
    .inferencePremise ⟨⟨["StaticMethodCallStmt", "caller_type"]⟩, .computed "getBaseType" [], none⟩,
    .inferencePremise ⟨⟨["StaticMethodCallStmt", "return_type"]⟩, .singular "returnType", none⟩]
  propositionDefn := ⟨.computed "baseType" [.singular "returnType"]⟩

/-- A module around one inference, whose group defines every environment field. -/
def ASTModule.ofInference (defn : ASTInferenceDefn) : ASTModule where
  inferenceGroups := [{
    name := "TypeRules"
    environmentDefns := [⟨"ClassName", "Checker"⟩, ⟨"TypeClass", "TypeCls"⟩,
      ⟨"ProofMethod", "proveType"⟩, ⟨"TypeCmpMethod", "cmpType"⟩,
      ⟨"TypeAnnotationSetupMethod", "setup"⟩, ⟨"TypeAnnotationTeardownMethod", "teardown"⟩]
    inferenceDefns := [defn] }]

theorem ConsistentTargets.subset {left right : List ASTDeductionTarget}
    (consistent : ConsistentTargets right) (subset : left ⊆ right) : ConsistentTargets left :=
  fun target member other memberOther =>
    consistent target (subset member) other (subset memberOther)

theorem ConsistentTargets.concat {targets : List ASTDeductionTarget} {last : ASTDeductionTarget}
    (consistent : ConsistentTargets targets)
    (fits : ∀ name, last.declaredName = some name → ∀ other ∈ targets,
      other.declaredName = some name → last.SameForm other) :
    ConsistentTargets (targets ++ [last]) := by
  intro target member other memberOther name named namedOther
  rcases List.mem_append.mp member with inTargets | isLast
  · rcases List.mem_append.mp memberOther with inTargets' | isLast'
    · exact consistent target inTargets other inTargets' name named namedOther
    · obtain rfl := List.mem_singleton.mp isLast'
      exact (fits name namedOther target inTargets named).symm
  · obtain rfl := List.mem_singleton.mp isLast
    rcases List.mem_append.mp memberOther with inTargets' | isLast'
    · exact fits name named other inTargets' namedOther
    · obtain rfl := List.mem_singleton.mp isLast'
      exact sameForm_self named

namespace SemanticAnalyzer

/-! ## Sets of names -/

theorem decides_insertDistinct {σ : Type} {report : StringType → Check Diagnostic σ Unit}
    {condition : Prop} (reports : ∀ name state, Decides (report name) state condition state ())
    (names : List StringType) (nameSet : SymbolSet) (state : σ) :
    Decides (insertDistinct report names nameSet) state
      ((names.Nodup ∧ ∀ name ∈ names, name ∉ nameSet) ∨ condition) state
      (names.toFinset ∪ nameSet) := by
  induction names generalizing nameSet with
  | nil =>
      rw [insertDistinct, List.toFinset_nil, Finset.empty_union]
      exact (decides_pure nameSet state).of_iff (by simp)
  | cons name rest ih =>
      by_cases present : name ∈ nameSet
      · have union : (name :: rest).toFinset ∪ nameSet = rest.toFinset ∪ nameSet := by
          ext other
          simp only [List.toFinset_cons, Finset.mem_union, Finset.mem_insert]
          constructor
          · rintro ((rfl | inRest) | inSet)
            · exact .inr present
            · exact .inl inRest
            · exact .inr inSet
          · exact fun either => either.imp_left .inr
        rw [union, insertDistinct, if_pos present]
        refine (decides_seq (reports name state) (ih nameSet)).of_iff ?_
        simp only [List.mem_cons, forall_eq_or_imp]
        tauto
      · have union : (name :: rest).toFinset ∪ nameSet = rest.toFinset ∪ insert name nameSet := by
          ext other
          simp only [List.toFinset_cons, Finset.mem_union, Finset.mem_insert]
          tauto
        rw [union, insertDistinct, if_neg present]
        refine (ih (insert name nameSet)).of_iff ?_
        simp only [List.nodup_cons, List.mem_cons, forall_eq_or_imp, Finset.mem_insert, not_or]
        constructor
        · rintro (⟨distinct, fresh⟩ | lenient)
          · exact .inl ⟨⟨fun member => (fresh name member).1 rfl, distinct⟩, present,
              fun other member => (fresh other member).2⟩
          · exact .inr lenient
        · rintro (⟨⟨absent, distinct⟩, _, fresh⟩ | lenient)
          · exact .inl ⟨distinct, fun other member =>
              ⟨fun same => absent (same ▸ member), fresh other member⟩⟩
          · exact .inr lenient

variable (policy : Policy)

theorem checkRequiredEnvDefns_iff (envDefns : SymbolSet) :
    (checkRequiredEnvDefns policy envDefns).value = true ↔ ∀ defn ∈ mandatoryEnvDefns, defn ∈ envDefns := by
  have each : ∀ (defn : StringType) (state : Unit),
      Decides (when (defn ∉ envDefns) <| onError policy
        (diagnostic .missingRequiredEnvironmentDefnField
          ("Missing required environment definition field \"" ++ defn ++ "\".")))
        state (defn ∈ envDefns) state () := by
    intro defn state
    exact (decides_when (decides_onError policy _ state) _).of_iff (by simp)
  refine (decides_forM each mandatoryEnvDefns ()).callLocal.trans (along_iff.trans ?_)
  constructor
  · intro all defn member
    obtain ⟨before, rest, split⟩ := List.append_of_mem member
    exact all before defn rest split
  · intro all before defn rest split
    exact all defn (by simp [split])

/-! ## The premises -/

/-- What the analyser asks of one premise, given the targets recorded before it. -/
def PremiseAccepted (symbolSet : SymbolSet) : ASTPremiseDefn → TargetTable → Prop
  | .inferencePremise defn, targetTbl =>
      ASTUtils.getRootOfASTIdentifiable defn.source ∈ symbolSet ∧
        ASTUtils.hasIncompatibleTargetInTable defn.deductionTarget targetTbl = false
  | .inferenceEquality defn, targetTbl =>
      ASTUtils.areTargetsCompatible defn.lhs defn.rhs = true ∧
        ∀ rangeClause, defn.rangeClause = some rangeClause →
          rangeClause.deductionTarget.isSingular = false ∧
            ASTUtils.hasCompatibleTargetInTable rangeClause.deductionTarget targetTbl = true

/-- What one premise records. -/
def record : ASTPremiseDefn → TargetTable → TargetTable
  | .inferencePremise defn, targetTbl => ASTUtils.addTargetToTable defn.deductionTarget targetTbl
  | .inferenceEquality _, targetTbl => targetTbl

variable (context : InferenceDefnContext)

theorem decides_sourceCheck (source : ASTIdentifiable) (targetTbl : TargetTable) :
    Decides (sourceCheck policy context source) targetTbl
      (ASTUtils.getRootOfASTIdentifiable source ∈ context.symbolSet) targetTbl () :=
  (decides_when (decides_onError policy _ targetTbl) _).of_iff (by simp)

theorem decides_targetCheck (target : ASTDeductionTarget) (targetTbl : TargetTable) :
    Decides (targetCheck policy context target) targetTbl
      (ASTUtils.hasIncompatibleTargetInTable target targetTbl = false)
      (ASTUtils.addTargetToTable target targetTbl) () :=
  decides_get_bind <|
    (decides_seq (decides_when (decides_onError policy _ targetTbl) _)
      (decides_modify (ASTUtils.addTargetToTable target) targetTbl)).of_iff (by simp)

theorem decides_rangeClauseCheck (rangeClause : ASTRangeClause) (targetTbl : TargetTable) :
    Decides (rangeClauseCheck policy context rangeClause) targetTbl
      (rangeClause.deductionTarget.isSingular = false ∧
        ASTUtils.hasCompatibleTargetInTable rangeClause.deductionTarget targetTbl = true)
      targetTbl () :=
  (decides_seq (decides_when (decides_onError policy _ targetTbl) _)
    (decides_get_bind (decides_when (decides_onError policy _ targetTbl) _))).of_iff (by simp)

theorem equalityDefnCheck_iff (defn : ASTInferenceEqualityDefn) (targetTbl : TargetTable) :
    ((equalityDefnCheck policy context defn targetTbl).value.1 = true ↔
        PremiseAccepted context.symbolSet (.inferenceEquality defn) targetTbl) ∧
      (PremiseAccepted context.symbolSet (.inferenceEquality defn) targetTbl →
        (equalityDefnCheck policy context defn targetTbl).value.2 = targetTbl) := by
  have operands := decides_when (decides_onError policy
    (diagnostic .incompatibleTargetType
      ("Incompatible targets in expression in inference \"" ++ context.name ++ "\".")) targetTbl)
    (!ASTUtils.areTargetsCompatible defn.lhs defn.rhs)
  apply Decides.call
  cases clause : defn.rangeClause with
  | none =>
      refine (decides_seq operands (decides_pure () targetTbl)).of_iff ?_
      simp [PremiseAccepted, clause]
  | some rangeClause =>
      refine (decides_seq operands (decides_rangeClauseCheck policy context rangeClause targetTbl)).of_iff ?_
      simp [PremiseAccepted, clause]

mutual
/-- Checking a premise accepts it and everything nested in it, and records the
targets met on the way. -/
theorem recursivePremiseDefnCheck_iff (defn : ASTPremiseDefn) (targetTbl : TargetTable) :
    ((recursivePremiseDefnCheck policy context defn targetTbl).value.1 = true ↔
        Along (PremiseAccepted context.symbolSet) record defn.documentOrder targetTbl) ∧
      (Along (PremiseAccepted context.symbolSet) record defn.documentOrder targetTbl →
        (recursivePremiseDefnCheck policy context defn targetTbl).value.2 =
          after record defn.documentOrder targetTbl) := by
  match defn with
  | .inferencePremise ⟨source, target, none⟩ =>
      have body := (decides_seq (decides_sourceCheck policy context source targetTbl)
        (decides_targetCheck policy context target targetTbl)).call
      have call := (decides_returnOnFailure body.1 body.2).call
      simpa [recursivePremiseDefnCheck, ASTPremiseDefn.documentOrder, Along, after, PremiseAccepted,
        record] using call
  | .inferencePremise ⟨source, target, some nested⟩ =>
      have body := (decides_seq (decides_sourceCheck policy context source targetTbl)
        (decides_seq (decides_targetCheck policy context target targetTbl)
          (decides_premiseDefnsCheck nested _))).call
      have call := (decides_returnOnFailure body.1 body.2).call
      simpa [recursivePremiseDefnCheck, ASTPremiseDefn.documentOrder, Along, after, PremiseAccepted,
        record, and_assoc] using call
  | .inferenceEquality equality =>
      have body := equalityDefnCheck_iff policy context equality targetTbl
      have call := (decides_returnOnFailure body.1 body.2).call
      simpa [recursivePremiseDefnCheck, ASTPremiseDefn.documentOrder, Along, after, record] using call

theorem decides_premiseDefnsCheck (defns : List ASTPremiseDefn) (targetTbl : TargetTable) :
    Decides (premiseDefnsCheck policy context defns) targetTbl
      (Along (PremiseAccepted context.symbolSet) record
        (ASTPremiseDefn.documentOrderList defns) targetTbl)
      (after record (ASTPremiseDefn.documentOrderList defns) targetTbl) () := by
  match defns with
  | [] => exact decides_pure () targetTbl
  | head :: tail =>
      have checked := recursivePremiseDefnCheck_iff head targetTbl
      rw [ASTPremiseDefn.documentOrderList, after_append]
      exact (decides_seq (decides_returnOnFailure checked.1 checked.2)
        (decides_premiseDefnsCheck tail _)).of_iff along_append.symm
end

/-! ## The target table

The table keeps one target a name, the last.  As long as the targets met are
consistent it stands for all of them.
-/

/-- The table after the given premises. -/
def tableAfter (premises : List ASTPremiseDefn) : TargetTable :=
  after record premises fun _ => none

theorem tableAfter_concat (premises : List ASTPremiseDefn) (last : ASTPremiseDefn) :
    tableAfter (premises ++ [last]) = record last (tableAfter premises) :=
  after_append record premises [last] _

theorem tableAfter_some {premises : List ASTPremiseDefn} {name : StringType}
    {target : ASTDeductionTarget} (found : tableAfter premises name = some target) :
    target ∈ ASTPremiseDefn.targets premises ∧ target.declaredName = some name := by
  induction premises using List.reverseRecOn with
  | nil => simp [tableAfter, after] at found
  | append_singleton premises last ih =>
      rw [tableAfter_concat] at found
      cases last with
      | inferenceEquality equality =>
          simpa using ih found
      | inferencePremise premise =>
          cases named : premise.deductionTarget.declaredName with
          | none =>
              rw [record, ASTUtils.addTargetToTable_of_computed named] at found
              simpa using (ih found).imp_left .inl
          | some recorded =>
              rw [record, ASTUtils.addTargetToTable_of_declaredName named] at found
              by_cases same : name = recorded
              · subst same
                obtain rfl : premise.deductionTarget = target := by simpa using found
                exact ⟨by simp, named⟩
              · rw [Function.update_of_ne same] at found
                simpa using (ih found).imp_left .inl

theorem tableAfter_isSome {premises : List ASTPremiseDefn} {name : StringType}
    {target : ASTDeductionTarget} (member : target ∈ ASTPremiseDefn.targets premises)
    (named : target.declaredName = some name) : ∃ found, tableAfter premises name = some found := by
  induction premises using List.reverseRecOn with
  | nil => simp at member
  | append_singleton premises last ih =>
      rw [tableAfter_concat]
      cases last with
      | inferenceEquality equality => exact ih (by simpa using member)
      | inferencePremise premise =>
          cases recorded : premise.deductionTarget.declaredName with
          | none =>
              rw [record, ASTUtils.addTargetToTable_of_computed recorded]
              have unlike : target ≠ premise.deductionTarget := by
                rintro rfl
                simp [named] at recorded
              exact ih (by simpa [unlike] using member)
          | some other =>
              rw [record, ASTUtils.addTargetToTable_of_declaredName recorded]
              by_cases same : name = other
              · exact ⟨_, by rw [same, Function.update_self]⟩
              · rw [Function.update_of_ne same]
                have unlike : target ≠ premise.deductionTarget := by
                  rintro rfl
                  exact same (Option.some.inj (named.symm.trans recorded))
                exact ih (by simpa [unlike] using member)

/-- While the targets met are consistent, the table's entry under a name has
the form of every target of that name. -/
theorem tableAfter_represents {premises : List ASTPremiseDefn}
    (consistent : ConsistentTargets (ASTPremiseDefn.targets premises)) {name : StringType}
    {target : ASTDeductionTarget} (member : target ∈ ASTPremiseDefn.targets premises)
    (named : target.declaredName = some name) :
    ∃ found, tableAfter premises name = some found ∧ found.SameForm target := by
  obtain ⟨found, entry⟩ := tableAfter_isSome member named
  obtain ⟨foundMember, foundNamed⟩ := tableAfter_some entry
  exact ⟨found, entry, consistent found foundMember target member name foundNamed named⟩

theorem hasCompatibleTargetInTable_tableAfter {premises : List ASTPremiseDefn}
    (consistent : ConsistentTargets (ASTPremiseDefn.targets premises)) (target : ASTDeductionTarget) :
    ASTUtils.hasCompatibleTargetInTable target (tableAfter premises) = true ↔
      DeclaredIn (ASTPremiseDefn.targets premises) target := by
  rw [ASTUtils.hasCompatibleTargetInTable_iff]
  constructor
  · intro compatible name named
    obtain ⟨existing, entry, same⟩ := compatible name named
    obtain ⟨member, namedExisting⟩ := tableAfter_some entry
    exact ⟨existing, member, namedExisting, same⟩
  · intro declared name named
    obtain ⟨other, member, namedOther, same⟩ := declared name named
    obtain ⟨found, entry, sameFound⟩ := tableAfter_represents consistent member namedOther
    exact ⟨found, entry, same.trans sameFound.symm⟩

/-- No premise's target clashes with the table exactly if the targets are consistent. -/
theorem noIncompatibleTarget_iff (premises : List ASTPremiseDefn) :
    (∀ before premise rest, premises = before ++ .inferencePremise premise :: rest →
        ASTUtils.hasIncompatibleTargetInTable premise.deductionTarget (tableAfter before) = false) ↔
      ConsistentTargets (ASTPremiseDefn.targets premises) := by
  constructor
  · intro compatible
    induction premises using List.reverseRecOn with
    | nil => simp [ConsistentTargets]
    | append_singleton premises last ih =>
        have consistent := ih fun before premise rest split =>
          compatible before premise (rest ++ [last]) (by rw [split]; simp)
        cases last with
        | inferenceEquality equality => simpa using consistent
        | inferencePremise premise =>
            have fits := compatible premises premise [] rfl
            rw [← Bool.not_eq_true, ASTUtils.hasIncompatibleTargetInTable_iff] at fits
            rw [ASTPremiseDefn.targets_append]
            refine consistent.concat fun name named other member namedOther => ?_
            obtain ⟨found, entry, same⟩ := tableAfter_represents consistent member namedOther
            by_contra unlike
            exact fits ⟨name, found, named, entry, fun alike => unlike (alike.trans same)⟩
  · intro consistent before premise rest split
    rw [← Bool.not_eq_true, ASTUtils.hasIncompatibleTargetInTable_iff]
    rintro ⟨name, existing, named, entry, unlike⟩
    obtain ⟨member, namedExisting⟩ := tableAfter_some entry
    refine unlike (consistent _ ?_ existing ?_ name named namedExisting)
    · simp [split]
    · simp [split, member]

/-- The walk accepts the premises exactly if they satisfy the clauses of
well-formedness about premises. -/
theorem along_premiseAccepted_iff (symbolSet : SymbolSet) (premises : List ASTPremiseDefn) :
    Along (PremiseAccepted symbolSet) record premises (fun _ => none) ↔
      (∀ premise, .inferencePremise premise ∈ premises →
        ASTUtils.getRootOfASTIdentifiable premise.source ∈ symbolSet) ∧
      ConsistentTargets (ASTPremiseDefn.targets premises) ∧
      (∀ premise, .inferenceEquality premise ∈ premises →
        premise.lhs.CompatibleOperands premise.rhs) ∧
      (∀ before premise rest rangeClause,
        premises = before ++ .inferenceEquality premise :: rest →
        premise.rangeClause = some rangeClause →
          rangeClause.deductionTarget.isSingular = false ∧
            DeclaredIn (ASTPremiseDefn.targets before) rangeClause.deductionTarget) := by
  rw [along_iff]
  constructor
  · intro accepted
    have consistent := (noIncompatibleTarget_iff premises).mp fun before premise rest split =>
      (accepted before (.inferencePremise premise) rest split).2
    refine ⟨?_, consistent, ?_, ?_⟩
    · intro premise member
      obtain ⟨before, rest, split⟩ := List.append_of_mem member
      exact (accepted before _ rest split).1
    · intro premise member
      obtain ⟨before, rest, split⟩ := List.append_of_mem member
      exact (ASTUtils.areTargetsCompatible_iff _ _).mp (accepted before _ rest split).1
    · intro before premise rest rangeClause split clause
      obtain ⟨array, compatible⟩ := (accepted before _ rest split).2 rangeClause clause
      have earlier : ConsistentTargets (ASTPremiseDefn.targets before) :=
        consistent.subset (by simp [split])
      exact ⟨array, (hasCompatibleTargetInTable_tableAfter earlier _).mp compatible⟩
  · rintro ⟨sources, consistent, operands, rangeBounds⟩ before item rest split
    have earlier : ConsistentTargets (ASTPremiseDefn.targets before) :=
      consistent.subset (by simp [split])
    cases item with
    | inferencePremise premise =>
        exact ⟨sources premise (by simp [split]),
          (noIncompatibleTarget_iff premises).mpr consistent before premise rest split⟩
    | inferenceEquality premise =>
        refine ⟨(ASTUtils.areTargetsCompatible_iff _ _).mpr (operands premise (by simp [split])), ?_⟩
        intro rangeClause clause
        obtain ⟨array, declared⟩ := rangeBounds before premise rest rangeClause split clause
        exact ⟨array, (hasCompatibleTargetInTable_tableAfter earlier _).mpr declared⟩

/-! ## The hooks -/

theorem previsitInferenceDefn_iff (defn : ASTInferenceDefn) :
    (previsitInferenceDefn policy defn).value = true ↔ defn.WellFormed policy.warningsAsErrors := by
  refine (Decides.callLocal <|
    decides_bind (decides_insertDistinct (fun _ state => decides_onWarning policy _ state) _ ∅ _) <|
    decides_bind (decides_insertDistinct (fun _ state => decides_onError policy _ state) _ _ _) <|
    decides_seq (decides_premiseDefnsCheck policy _ _ _) <|
    decides_get_bind <| decides_when (decides_onError policy _ _) _).trans ?_
  simp only [along_premiseAccepted_iff, List.mem_toFinset, Finset.mem_union, Finset.notMem_empty,
    not_false_eq_true, implies_true, and_true, or_false]
  constructor
  · rintro ⟨globals, ⟨arguments, fresh⟩, ⟨sources, targets, operands, rangeBounds⟩, proposition⟩
    refine ⟨fun strict => globals.resolve_right (by simp [strict]), arguments, fresh,
      fun premise member => (sources premise member).symm, targets, operands, rangeBounds, ?_⟩
    exact (hasCompatibleTargetInTable_tableAfter targets _).mp (by simpa [tableAfter] using proposition)
  · intro wellFormed
    refine ⟨?_, ⟨wellFormed.arguments, wellFormed.argumentsNotGlobal⟩,
      ⟨fun premise member => (wellFormed.sources premise member).symm, wellFormed.targets,
        wellFormed.operands, wellFormed.rangeBounds⟩, ?_⟩
    · cases strict : policy.warningsAsErrors with
      | false => exact .inr rfl
      | true => exact .inl (wellFormed.globals strict)
    · simpa [tableAfter, ASTInferenceDefn.allPremises] using
        (hasCompatibleTargetInTable_tableAfter wellFormed.targets _).mpr wellFormed.proposition

/-- What the analyser asks of a group before it looks into the inferences. -/
theorem previsitInferenceGroup_iff (group : ASTInferenceGroup) :
    (previsitInferenceGroup policy group).value = true ↔
      (policy.warningsAsErrors = true → group.fields.Nodup) ∧
        (∀ key ∈ mandatoryEnvDefns, key ∈ group.fields) ∧
          (group.inferenceDefns.map (·.name)).Nodup := by
  refine (Decides.callLocal <|
    decides_bind (decides_insertDistinct (fun _ state => decides_onWarning policy _ state) _ ∅ _) <|
    decides_seq (decides_returnUnless (checkRequiredEnvDefns_iff policy _) _) <|
    decides_bind (decides_insertDistinct (fun _ state => decides_onError policy _ state) _ ∅ _) <|
    decides_pure () ()).trans ?_
  simp only [List.mem_toFinset, Finset.mem_union, Finset.notMem_empty, not_false_eq_true,
    implies_true, and_true, or_false, ASTInferenceGroup.fields]
  cases policy.warningsAsErrors <;> simp

theorem previsitModule_iff (module : ASTModule) :
    (previsitModule policy module).value = true ↔ (module.inferenceGroups.map (·.name)).Nodup := by
  refine (Decides.callLocal <|
    decides_bind (decides_insertDistinct (fun _ state => decides_onError policy _ state) _ ∅ _) <|
    decides_pure () ()).trans ?_
  simp

/-! ## The walk -/

section Walk

open ASTVisitor

/-- The analyser does all its work on a definition before the walk enters it. -/
theorem visitInferenceDefn_eq (defn : ASTInferenceDefn) :
    (visitor policy).visitInferenceDefn defn = previsitInferenceDefn policy defn := by
  have target : ∀ target, (visitor policy).visitDeductionTarget target = pure true := by
    intro target
    cases target <;> simp [visitDeductionTarget, visitDeductionTargetValue, visitor]
  have premise : ∀ premise, (visitor policy).visitPremiseDefn premise = pure true := by
    intro premise
    cases premise with
    | inferencePremise => simp [visitPremiseDefn, visitInferencePremiseDefn, visitor]
    | inferenceEquality =>
        simp only [visitPremiseDefn, visitInferenceEqualityDefn, target]
        simp [visitor]
  rw [visitInferenceDefn,
    visitAll_pure_true _ defn.globalDecls fun _ _ => by simp [visitGlobalDecl, visitor],
    visitAll_pure_true _ defn.arguments fun _ _ => by simp [visitInferenceArgument, visitor],
    visitAll_pure_true _ defn.premiseDefns fun premise' _ => premise premise']
  simp only [visitPropositionDefn, target]
  simp [visitor]

theorem visitInferenceGroup_eq (group : ASTInferenceGroup) :
    (visitor policy).visitInferenceGroup group =
      verify (previsitInferenceGroup policy group)
        (visitAll (previsitInferenceDefn policy) group.inferenceDefns) := by
  rw [visitInferenceGroup,
    visitAll_pure_true _ group.environmentDefns fun _ _ => by simp [visitEnvironmentDefn, visitor],
    funext (visitInferenceDefn_eq policy)]
  simp [visitor]

theorem visitModule_eq (module : ASTModule) :
    (visitor policy).visitModule module =
      verify (previsitModule policy module)
        (visitAll (visitor policy).visitInferenceGroup module.inferenceGroups) := by
  rw [visitModule]
  simp [visitor]

theorem verify_value_iff {step rest : Reported Diagnostic Bool} :
    (verify step rest).value = true ↔ step.value = true ∧ rest.value = true := by
  simp only [verify, Reported.bind_value]
  cases step.value <;> simp

theorem visitAll_value_iff {α : Type} (visit : α → Reported Diagnostic Bool) (items : List α) :
    (visitAll visit items).value = true ↔ ∀ item ∈ items, (visit item).value = true := by
  induction items with
  | nil => simp [visitAll]
  | cons head tail ih => simp [visitAll, verify_value_iff, ih]

theorem visitInferenceGroup_iff (group : ASTInferenceGroup) :
    ((visitor policy).visitInferenceGroup group).value = true ↔
      group.WellFormed policy.warningsAsErrors := by
  rw [visitInferenceGroup_eq, verify_value_iff, previsitInferenceGroup_iff, visitAll_value_iff]
  simp only [previsitInferenceDefn_iff, mandatoryEnvDefns, List.mem_cons, forall_eq_or_imp,
    List.not_mem_nil, false_implies, implies_true, and_true]
  constructor
  · rintro ⟨⟨fields, ⟨className, typeClass, proofMethod, typeCmpMethod⟩, names⟩, inferences⟩
    exact ⟨className, typeClass, proofMethod, typeCmpMethod, fields, names, inferences⟩
  · intro wellFormed
    exact ⟨⟨wellFormed.fields, ⟨wellFormed.className, wellFormed.typeClass, wellFormed.proofMethod,
      wellFormed.typeCmpMethod⟩, wellFormed.inferenceNames⟩, wellFormed.inferences⟩

theorem visitModule_iff (module : ASTModule) :
    ((visitor policy).visitModule module).value = true ↔
      module.WellFormed policy.warningsAsErrors := by
  rw [visitModule_eq, verify_value_iff, previsitModule_iff, visitAll_value_iff]
  simp only [visitInferenceGroup_iff]
  exact ⟨fun ⟨names, groups⟩ => ⟨names, groups⟩, fun wellFormed => ⟨wellFormed.groupNames, wellFormed.groups⟩⟩

end Walk

/-- The analyser, under any options, accepts exactly the well-formed modules. -/
theorem run_eq_true_iff_wellFormed (opts : Options) (module : ASTModule) :
    (run opts module).value = true ↔ module.WellFormed opts.warningsAsErrors :=
  visitModule_iff opts.policy module

end SemanticAnalyzer

end Snowlake
