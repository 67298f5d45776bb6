import Snowlake.Lib.Reports
import Snowlake.Sema.Options

/-! # What the analyser says

Every report of the analyser is a diagnostic of one of its codes.  Two of them may
be warnings, and these are errors if warnings are to be.
-/

namespace Snowlake.SemanticAnalyzer

open Checking Checking.Check Checking.Report

/-- What may be reported under a policy. -/
def Reportable (policy : Policy) (report : Report Diagnostic) : Prop :=
  ∃ code text, report.body = diagnostic code text ∧
    (report.severity = .warning → policy.warningsAsErrors = false ∧
      (code = .duplicateEnvironmentDefnField ∨ code = .duplicateGlobalDefinition))

variable (policy : Policy)

theorem reportable_error (code : SemanticAnalysisErrorCode) (text : String) :
    Reportable policy ⟨.error, diagnostic code text⟩ := ⟨code, text, rfl, nofun⟩

theorem reports_error {σ : Type} (code : SemanticAnalysisErrorCode) (text : String) :
    Reports (Reportable policy) (onError policy (diagnostic code text) : Check Diagnostic σ Unit) :=
  reports_onError policy (reportable_error policy code text)

theorem reports_warning {σ : Type} {code : SemanticAnalysisErrorCode} (text : String)
    (mild : code = .duplicateEnvironmentDefnField ∨ code = .duplicateGlobalDefinition) :
    Reports (Reportable policy) (onWarning policy (diagnostic code text) : Check Diagnostic σ Unit) :=
  reports_onWarning policy (reportable_error policy code text) fun lenient =>
    ⟨code, text, rfl, fun _ => ⟨lenient, mild⟩⟩

theorem reports_insertDistinct {σ : Type} {p : Report Diagnostic → Prop}
    {report : StringType → Check Diagnostic σ Unit} (reports : ∀ name, Reports p (report name))
    (names : List StringType) (nameSet : SymbolSet) : Reports p (insertDistinct report names nameSet) := by
  induction names generalizing nameSet with
  | nil => exact reports_pure nameSet
  | cons name rest ih =>
      rw [insertDistinct]
      split
      · exact reports_bind (reports name) fun _ => ih nameSet
      · exact ih (insert name nameSet)

/-! ## The premises -/

variable (context : InferenceDefnContext)

theorem reports_sourceCheck (source : ASTIdentifiable) :
    Reports (Reportable policy) (sourceCheck policy context source) :=
  reports_when _ (reports_error policy _ _)

theorem reports_targetCheck (target : ASTDeductionTarget) :
    Reports (Reportable policy) (targetCheck policy context target) :=
  reports_bind reports_get fun _ =>
    reports_bind (reports_when _ (reports_error policy _ _)) fun _ => reports_modify _

theorem reports_rangeClauseCheck (rangeClause : ASTRangeClause) :
    Reports (Reportable policy) (rangeClauseCheck policy context rangeClause) :=
  reports_bind (reports_when _ (reports_error policy _ _)) fun _ =>
    reports_bind reports_get fun _ => reports_when _ (reports_error policy _ _)

theorem reports_equalityDefnCheck (defn : ASTInferenceEqualityDefn) (targetTbl : TargetTable) :
    ∀ report ∈ (equalityDefnCheck policy context defn targetTbl).log, Reportable policy report := by
  obtain ⟨lhs, rhs, oprt, rangeClause⟩ := defn
  cases rangeClause with
  | none =>
      exact (reports_bind (reports_when _ (reports_error policy _ _)) fun _ => reports_pure ()).call targetTbl
  | some rangeClause =>
      exact (reports_bind (reports_when _ (reports_error policy _ _)) fun _ =>
        reports_rangeClauseCheck policy context rangeClause).call targetTbl

mutual
theorem reports_recursivePremiseDefnCheck (defn : ASTPremiseDefn) (targetTbl : TargetTable) :
    ∀ report ∈ (recursivePremiseDefnCheck policy context defn targetTbl).log, Reportable policy report := by
  match defn with
  | .inferencePremise ⟨source, target, none⟩ =>
      have body : Reports (Reportable policy) (do
          sourceCheck policy context source
          targetCheck policy context target) :=
        reports_bind (reports_sourceCheck policy context source) fun _ =>
          reports_targetCheck policy context target
      simpa only [recursivePremiseDefnCheck] using (reports_returnOnFailure body.call).call targetTbl
  | .inferencePremise ⟨source, target, some nested⟩ =>
      have body : Reports (Reportable policy) (do
          sourceCheck policy context source
          targetCheck policy context target
          premiseDefnsCheck policy context nested) :=
        reports_bind (reports_sourceCheck policy context source) fun _ =>
          reports_bind (reports_targetCheck policy context target) fun _ => reports_premiseDefnsCheck nested
      simpa only [recursivePremiseDefnCheck] using (reports_returnOnFailure body.call).call targetTbl
  | .inferenceEquality equality =>
      simpa only [recursivePremiseDefnCheck] using
        (reports_returnOnFailure (reports_equalityDefnCheck policy context equality)).call targetTbl

theorem reports_premiseDefnsCheck (defns : List ASTPremiseDefn) :
    Reports (Reportable policy) (premiseDefnsCheck policy context defns) := by
  match defns with
  | [] => exact reports_pure ()
  | head :: tail =>
      simp only [premiseDefnsCheck]
      exact reports_bind (reports_returnOnFailure (reports_recursivePremiseDefnCheck head)) fun _ =>
        reports_premiseDefnsCheck tail
end

/-! ## The hooks and the walk -/

theorem reports_previsitInferenceDefn (defn : ASTInferenceDefn) :
    ∀ report ∈ (previsitInferenceDefn policy defn).log, Reportable policy report := by
  refine Reports.callLocal (reports_bind (reports_insertDistinct ?_ _ _) fun globals =>
    reports_bind (reports_insertDistinct ?_ _ _) fun symbolSet =>
      reports_bind (reports_premiseDefnsCheck policy _ _) fun _ =>
        reports_bind reports_get fun _ => reports_when _ (reports_error policy _ _)) _
  · exact fun name => reports_warning policy _ (.inr rfl)
  · exact fun name => reports_error policy _ _

theorem reports_checkRequiredEnvDefns (envDefns : SymbolSet) :
    ∀ report ∈ (checkRequiredEnvDefns policy envDefns).log, Reportable policy report :=
  Reports.callLocal (reports_forM (fun _ => reports_when _ (reports_error policy _ _)) _) ()

theorem reports_previsitInferenceGroup (group : ASTInferenceGroup) :
    ∀ report ∈ (previsitInferenceGroup policy group).log, Reportable policy report := by
  refine Reports.callLocal (reports_bind (reports_insertDistinct ?_ _ _) fun nameSet =>
    reports_bind (reports_returnUnless (reports_checkRequiredEnvDefns policy nameSet)) fun _ =>
      reports_bind (reports_insertDistinct ?_ _ _) fun _ => reports_pure ()) _
  · exact fun field => reports_warning policy _ (.inl rfl)
  · exact fun name => reports_error policy _ _

theorem reports_previsitModule (module : ASTModule) :
    ∀ report ∈ (previsitModule policy module).log, Reportable policy report :=
  Reports.callLocal (reports_bind (reports_insertDistinct (fun _ => reports_error policy _ _) _ _)
    fun _ => reports_pure ()) _

theorem reports_verify {p : Report Diagnostic → Prop} {step rest : Reported Diagnostic Bool}
    (here : ∀ report ∈ step.log, p report) (later : ∀ report ∈ rest.log, p report) :
    ∀ report ∈ (ASTVisitor.verify step rest).log, p report := by
  intro report member
  rcases List.mem_append.mp member with inStep | inRest
  · exact here report inStep
  · cases answer : step.value with
    | true =>
        rw [answer] at inRest
        exact later report inRest
    | false =>
        rw [answer] at inRest
        cases inRest

theorem reports_visitAll {α : Type} {p : Report Diagnostic → Prop} {visit : α → Reported Diagnostic Bool}
    (each : ∀ item, ∀ report ∈ (visit item).log, p report) (items : List α) :
    ∀ report ∈ (ASTVisitor.visitAll visit items).log, p report := by
  induction items with
  | nil => nofun
  | cons head tail ih => exact reports_verify (each head) ih

theorem reports_visitInferenceGroup (group : ASTInferenceGroup) :
    ∀ report ∈ ((visitor policy).visitInferenceGroup group).log, Reportable policy report := by
  rw [visitInferenceGroup_eq]
  exact reports_verify (reports_previsitInferenceGroup policy group)
    (reports_visitAll (reports_previsitInferenceDefn policy) _)

/-- Whatever the module, the analyser reports diagnostics of its codes, and only two
of them as warnings. -/
theorem run_reports (opts : Options) (module : ASTModule) :
    ∀ report ∈ (run opts module).log, Reportable opts.policy report := by
  rw [run, visitModule_eq]
  exact reports_verify (reports_previsitModule opts.policy module)
    (reports_visitAll (reports_visitInferenceGroup opts.policy) _)

/-! ## Modules that are accepted when warnings are errors -/

theorem wellFormed_of_strict {module : ASTModule} (wellFormed : module.WellFormed true)
    (warningsAsErrors : Bool) : module.WellFormed warningsAsErrors where
  groupNames := wellFormed.groupNames
  groups group inModule :=
    have here := wellFormed.groups group inModule
    { here with
      fields := fun _ => here.fields rfl
      inferences := fun defn inGroup =>
        { here.inferences defn inGroup with globals := fun _ => (here.inferences defn inGroup).globals rfl } }

/-- There is nothing to be said of them, whatever the options. -/
theorem log_of_strict {module : ASTModule} (wellFormed : module.WellFormed true) (opts : Options) :
    (run opts module).log = [] := by
  have reports := run_reports ⟨false, true, opts.verbose⟩ module
  have accepted := (visitModule_iff ⟨false, true⟩ module).mpr wellFormed
  have coherent := visitModule_coherent ⟨false, true⟩ module
  have quiet : bodies ((visitor .lenient).visitModule module).log = [] := by
    change ∀ report ∈ ((visitor ⟨false, true⟩).visitModule module).log, _ at reports
    generalize (visitor .lenient).visitModule module = lax at coherent ⊢
    generalize (visitor ⟨false, true⟩).visitModule module = strict at coherent accepted reports
    cases coherent with
    | negative _ _ _ no =>
        rw [id_eq] at no
        rw [no] at accepted
        cases accepted
    | @positive log _ _ same clean _ =>
        have nothing : log = [] := by
          refine List.eq_nil_iff_forall_not_mem.mpr fun report member => ?_
          obtain ⟨code, text, -, warned⟩ := reports report member
          cases severity : report.severity with
          | error => exact clean report member severity
          | warning => cases (warned severity).1
        rw [← same, nothing]
        rfl
  have begins := (visitModule_coherent opts.policy module).begins
  rw [quiet, List.prefix_nil] at begins
  exact List.map_eq_nil_iff.mp begins

end Snowlake.SemanticAnalyzer
