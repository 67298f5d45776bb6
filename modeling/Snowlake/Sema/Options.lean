import Snowlake.Sema.WellFormed

/-! # What the options change

Neither option changes what the analyser says, only how far it gets and which
of its reports are errors.
-/

namespace Snowlake.SemanticAnalyzer

open Checking Checking.Check Checking.Report

theorem uniform_insertDistinct {σ : Type} {report : Policy → StringType → Check Diagnostic σ Unit}
    (reports : ∀ name, Uniform fun policy => report policy name) (names : List StringType)
    (nameSet : SymbolSet) : Uniform fun policy => insertDistinct (report policy) names nameSet := by
  induction names generalizing nameSet with
  | nil => exact uniform_pure nameSet
  | cons name rest ih =>
      by_cases present : name ∈ nameSet
      · simp only [insertDistinct, if_pos present]
        exact uniform_bind (reports name) fun _ => ih nameSet
      · simp only [insertDistinct, if_neg present]
        exact ih (insert name nameSet)

theorem checkRequiredEnvDefns_coherent (envDefns : SymbolSet) (policy : Policy) :
    Coherent policy id (checkRequiredEnvDefns policy envDefns)
      (checkRequiredEnvDefns .lenient envDefns) :=
  Uniform.callLocal (uniform_forM (fun _ => uniform_when (uniform_onError _) _) _) policy ()

/-! ## The premises -/

section Premises

variable (context : InferenceDefnContext)

theorem uniform_sourceCheck (source : ASTIdentifiable) :
    Uniform fun policy => sourceCheck policy context source :=
  uniform_when (uniform_onError _) _

theorem uniform_targetCheck (target : ASTDeductionTarget) :
    Uniform fun policy => targetCheck policy context target :=
  uniform_get_bind fun _ => uniform_bind (uniform_when (uniform_onError _) _) fun _ =>
    uniform_modify _

theorem uniform_rangeClauseCheck (rangeClause : ASTRangeClause) :
    Uniform fun policy => rangeClauseCheck policy context rangeClause :=
  uniform_bind (uniform_when (uniform_onError _) _) fun _ =>
    uniform_get_bind fun _ => uniform_when (uniform_onError _) _

theorem equalityDefnCheck_coherent (defn : ASTInferenceEqualityDefn) (policy : Policy)
    (targetTbl : TargetTable) :
    Coherent policy Prod.fst (equalityDefnCheck policy context defn targetTbl)
      (equalityDefnCheck .lenient context defn targetTbl) := by
  obtain ⟨lhs, rhs, oprt, rangeClause⟩ := defn
  cases rangeClause with
  | none =>
      exact (uniform_bind (uniform_when (uniform_onError _) _) fun _ => uniform_pure ()).call policy
        targetTbl
  | some rangeClause =>
      exact (uniform_bind (uniform_when (uniform_onError _) _) fun _ =>
        uniform_rangeClauseCheck context rangeClause).call policy targetTbl

mutual
theorem recursivePremiseDefnCheck_coherent (defn : ASTPremiseDefn) (policy : Policy)
    (targetTbl : TargetTable) :
    Coherent policy Prod.fst (recursivePremiseDefnCheck policy context defn targetTbl)
      (recursivePremiseDefnCheck .lenient context defn targetTbl) := by
  match defn with
  | .inferencePremise ⟨source, target, none⟩ =>
      have body : Uniform fun policy => (do
          sourceCheck policy context source
          targetCheck policy context target) :=
        uniform_bind (uniform_sourceCheck context source) fun _ => uniform_targetCheck context target
      simpa only [recursivePremiseDefnCheck] using
        (uniform_returnOnFailure body.call).call policy targetTbl
  | .inferencePremise ⟨source, target, some nested⟩ =>
      have body : Uniform fun policy => (do
          sourceCheck policy context source
          targetCheck policy context target
          premiseDefnsCheck policy context nested) :=
        uniform_bind (uniform_sourceCheck context source) fun _ =>
          uniform_bind (uniform_targetCheck context target) fun _ => uniform_premiseDefnsCheck nested
      simpa only [recursivePremiseDefnCheck] using
        (uniform_returnOnFailure body.call).call policy targetTbl
  | .inferenceEquality equality =>
      simpa only [recursivePremiseDefnCheck] using
        (uniform_returnOnFailure (equalityDefnCheck_coherent context equality)).call policy targetTbl

theorem uniform_premiseDefnsCheck (defns : List ASTPremiseDefn) :
    Uniform fun policy => premiseDefnsCheck policy context defns := by
  match defns with
  | [] => exact uniform_pure ()
  | head :: tail =>
      simp only [premiseDefnsCheck]
      exact uniform_bind (uniform_returnOnFailure (recursivePremiseDefnCheck_coherent head)) fun _ =>
        uniform_premiseDefnsCheck tail
end

end Premises

/-! ## The hooks and the walk -/

variable (policy : Policy)

theorem previsitInferenceDefn_coherent (defn : ASTInferenceDefn) :
    Coherent policy id (previsitInferenceDefn policy defn) (previsitInferenceDefn .lenient defn) :=
  Uniform.callLocal
    (uniform_bind (uniform_insertDistinct (fun _ => uniform_onWarning _) _ _) fun _ =>
      uniform_bind (uniform_insertDistinct (fun _ => uniform_onError _) _ _) fun _ =>
        uniform_bind (uniform_premiseDefnsCheck _ _) fun _ =>
          uniform_get_bind fun _ => uniform_when (uniform_onError _) _) policy _

theorem previsitInferenceGroup_coherent (group : ASTInferenceGroup) :
    Coherent policy id (previsitInferenceGroup policy group) (previsitInferenceGroup .lenient group) :=
  Uniform.callLocal
    (uniform_bind (uniform_insertDistinct (fun _ => uniform_onWarning _) _ _) fun _ =>
      uniform_bind (uniform_returnUnless (checkRequiredEnvDefns_coherent _)) fun _ =>
        uniform_bind (uniform_insertDistinct (fun _ => uniform_onError _) _ _) fun _ =>
          uniform_pure _) policy _

theorem previsitModule_coherent (module : ASTModule) :
    Coherent policy id (previsitModule policy module) (previsitModule .lenient module) :=
  Uniform.callLocal
    (uniform_bind (uniform_insertDistinct (fun _ => uniform_onError _) _ _) fun _ =>
      uniform_pure _) policy _

theorem visitAll_coherent {α : Type} {visit lax : α → Reported Diagnostic Bool}
    (each : ∀ item, Coherent policy id (visit item) (lax item)) (items : List α) :
    Coherent policy id (ASTVisitor.visitAll visit items) (ASTVisitor.visitAll lax items) := by
  induction items with
  | nil => exact .positive rfl clean_nil rfl
  | cons head tail ih => exact (each head).andThen ih

theorem visitInferenceGroup_coherent (group : ASTInferenceGroup) :
    Coherent policy id ((visitor policy).visitInferenceGroup group)
      ((visitor .lenient).visitInferenceGroup group) := by
  rw [visitInferenceGroup_eq, visitInferenceGroup_eq]
  exact (previsitInferenceGroup_coherent policy group).andThen
    (visitAll_coherent policy (previsitInferenceDefn_coherent policy) _)

theorem visitModule_coherent (module : ASTModule) :
    Coherent policy id ((visitor policy).visitModule module)
      ((visitor .lenient).visitModule module) := by
  rw [visitModule_eq, visitModule_eq]
  exact (previsitModule_coherent policy module).andThen
    (visitAll_coherent policy (visitInferenceGroup_coherent policy) _)

/-- Whatever the options, the analyser says the beginning of what it says
without them, answers `false` exactly if it registered an error, and with
`bailOnFirstError` registers at most one error, as its last report. -/
theorem run_under_options (opts : Options) (module : ASTModule) (verbose : Bool) :
    bodies (run opts module).log <+: bodies (run ⟨false, false, verbose⟩ module).log ∧
      ((run opts module).value = false ↔
        ∃ report ∈ (run opts module).log, report.severity = .error) ∧
      (opts.bailOnFirstError = true →
        ((run opts module).log.filter (·.severity = .error)).length ≤ 1 ∧
          ∀ before report rest, (run opts module).log = before ++ report :: rest →
            report.severity = .error → rest = []) := by
  have coherent := visitModule_coherent opts.policy module
  refine ⟨coherent.begins, coherent.value_eq_false_iff, fun bails => ?_⟩
  exact errors_last (coherent.endsWithError bails)

end Snowlake.SemanticAnalyzer
