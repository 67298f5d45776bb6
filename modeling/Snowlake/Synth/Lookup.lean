import Snowlake.Synth.Scoping

/-! # Names a synthesized function reads

The analyser and the emitted statements each know a set of names at every
premise: the symbols and the target table here, the parameters and the variables
declared so far there.  The analyser asks nothing of the operands of an equality
premise, and it takes the target of a while premise for declared, which no
statement declares.
-/

namespace Snowlake

open Emitted Checking Checking.Check ASTDeductionTarget

/-! ## Statements -/

namespace Emitted

mutual
/-- The variables an expression reads. -/
def Expr.variables : Expr → List StringType
  | .ident name | .element name _ | .deref name => [name]
  | .call _ arguments => Expr.variablesList arguments

def Expr.variablesList : List Expr → List StringType
  | [] => []
  | head :: tail => head.variables ++ Expr.variablesList tail
end

/-- The variable an expression is, but for an index or a star. -/
def Expr.root : Expr → Option StringType
  | .ident name | .element name _ | .deref name => some name
  | .call _ _ => none

def Operand.variables (operand : Operand) : List StringType :=
  operand.expr.variables ++ operand.counter.toList

def Comparison.variables (comparison : Comparison) : List StringType :=
  comparison.lhs.variables ++ comparison.rhs.variables

mutual
/-- The comparisons in a statement, each with the loop counters around it. -/
def Stmt.comparisons (counters : List StringType) : Stmt → List (List StringType × Comparison)
  | .ifNot comparison body => (counters, comparison) :: Stmt.comparisonsList counters body
  | .forRange _ _ _ body => Stmt.comparisonsList ("i" :: "j" :: counters) body
  | _ => []

def Stmt.comparisonsList (counters : List StringType) :
    List Stmt → List (List StringType × Comparison)
  | [] => []
  | head :: tail => Stmt.comparisons counters head ++ Stmt.comparisonsList counters tail
end

/-- The variable that bounds the statement's loop or is its result. -/
def Stmt.result : Stmt → Option StringType
  | .forRange _ _ bound _ => bound.root
  | .returnValue value => value.root
  | _ => none

end Emitted

namespace ASTDeductionTarget

mutual
/-- The names of types a target mentions, those of functions apart. -/
def mentions : ASTDeductionTarget → List StringType
  | .singular name | .array name _ => [name]
  | .computed _ arguments => mentionsList arguments

def mentionsList : List ASTDeductionTarget → List StringType
  | [] => []
  | head :: tail => mentions head ++ mentionsList tail
end

end ASTDeductionTarget

namespace Synthesizer

mutual
theorem variables_targetExpr (target : ASTDeductionTarget) :
    (targetExpr target).variables = target.mentions := by
  cases target with
  | singular | array => rfl
  | computed name arguments =>
      rw [targetExpr, Expr.variables, mentions, variables_targetExprs arguments]

theorem variables_targetExprs (targets : List ASTDeductionTarget) :
    Expr.variablesList (targetExprs targets) = mentionsList targets := by
  match targets with
  | [] => rfl
  | head :: tail =>
      rw [targetExprs, Expr.variablesList, mentionsList, variables_targetExpr head,
        variables_targetExprs tail]
end

theorem root_targetExpr (target : ASTDeductionTarget) :
    (targetExpr target).root = target.declaredName := by
  cases target <;> rfl

theorem root_propositionExpr (target : ASTDeductionTarget) :
    (propositionExpr target).root = target.declaredName := by
  cases target with
  | singular | computed => rfl
  | array _ size => cases size <;> rfl

/-! ## Premises -/

/-- The scope after premises, when the first temporary has the number `nameId`. -/
def scopeAfter (nameId : UInt32) (premises : List ASTPremiseDefn) : Scope :=
  after enter premises ⟨[], nameId⟩

theorem mem_scopeAfter {nameId : UInt32} {premises : List ASTPremiseDefn} {name : StringType} :
    name ∈ (scopeAfter nameId premises).declared ↔
      name ∈ plainTargets premises ∨ name ∈ temporaries nameId (temporaryCount premises) := by
  rw [scopeAfter, (declared_perm premises ⟨[], nameId⟩).mem_iff, List.nil_append, List.mem_append]

/-- A plain target is the target of a premise without while clause. -/
theorem mem_plainTargets {premises : List ASTPremiseDefn} {name : StringType} :
    name ∈ plainTargets premises ↔
      ∃ premise, .inferencePremise premise ∈ premises ∧ premise.whileClause = none ∧
        premise.deductionTarget.declaredName = some name := by
  rw [plainTargets, List.mem_filterMap]
  constructor
  · rintro ⟨⟨source, target, _ | body⟩ | equality, member, found⟩
    · exact ⟨_, member, rfl, found⟩
    · cases found
    · cases found
  · rintro ⟨⟨source, target, whileClause⟩, member, rfl, named⟩
    exact ⟨_, member, named⟩

section Body

variable (opts : Options) {condition : Stmt → List StringType → Prop}

/-- A condition on the statements of a body, each under the names declared
before it, is a condition on the premises and on the result. -/
theorem bodyStmts_forall_iff (idle : ∀ stmt declared, stmt.Idle → condition stmt declared)
    (defn : ASTInferenceDefn) (nameId : UInt32) :
    (∀ before stmt rest, bodyStmts opts defn nameId = before ++ stmt :: rest →
        condition stmt (declaredNames before)) ↔
      (∀ before premise rest, defn.allPremises = before ++ premise :: rest →
        PremiseMeets condition premise (scopeAfter nameId before)) ∧
      condition (.returnValue (propositionExpr defn.propositionDefn.target))
        (scopeAfter nameId defn.allPremises).declared := by
  have statements : Along condition Stmt.enter (bodyStmts opts defn nameId) [] ↔ _ := along_iff
  simp only [after_enter, List.nil_append] at statements
  obtain ⟨premises, final⟩ := along_premiseListStmts opts idle defn.premiseDefns ⟨nameId, 0⟩ []
  rw [← statements, bodyStmts, along_append, premises, along_iff]
  rw [ASTInferenceDefn.allPremises, scopeAfter, final]
  simp only [Along, and_true]
  rfl

end Body

/-! ## Results and range bounds -/

variable (opts : Options)

/-- An argument, a global or a declared variable. -/
def Known (defn : ASTInferenceDefn) (declared : List StringType) (name : StringType) : Prop :=
  name ∈ defn.argumentNames ∨ name ∈ defn.globalNames ∨ name ∈ declared

def ResultKnown (defn : ASTInferenceDefn) (stmt : Stmt) (declared : List StringType) : Prop :=
  ∀ name, stmt.result = some name → Known defn declared name

/-- The result of a body, and what bounds each of its loops, is an argument, a
global or a variable that a statement before it declares. -/
def ResultsDeclared (defn : ASTInferenceDefn) (body : List Stmt) : Prop :=
  ∀ before stmt rest, body = before ++ stmt :: rest → ResultKnown defn stmt (declaredNames before)

/-- If only while premises have the target `name`, something else has that name. -/
def CoveredAfter (defn : ASTInferenceDefn) (nameId : UInt32) (before : List ASTPremiseDefn)
    (target : ASTDeductionTarget) : Prop :=
  ∀ name, target.declaredName = some name →
    (∀ premise, .inferencePremise premise ∈ before →
      premise.deductionTarget.declaredName = some name → premise.whileClause.isSome = true) →
    name ∈ defn.argumentNames ∨ name ∈ defn.globalNames ∨
      name ∈ temporaries nameId (temporaryCount before)

/-- No range bound and no proposition rests on the target of a while premise alone. -/
structure ResultsCovered (defn : ASTInferenceDefn) (nameId : UInt32) : Prop where
  rangeBounds : ∀ before premise rest rangeClause,
    defn.allPremises = before ++ .inferenceEquality premise :: rest →
    premise.rangeClause = some rangeClause →
      CoveredAfter defn nameId before rangeClause.deductionTarget
  proposition : CoveredAfter defn nameId defn.allPremises defn.propositionDefn.target

theorem coveredAfter_iff (defn : ASTInferenceDefn) (nameId : UInt32) (before : List ASTPremiseDefn)
    (target : ASTDeductionTarget) :
    CoveredAfter defn nameId before target ↔ ∀ name, target.declaredName = some name →
      Known defn (scopeAfter nameId before).declared name := by
  simp only [CoveredAfter, Known, mem_scopeAfter]
  refine forall₂_congr fun name named => ?_
  by_cases plain : name ∈ plainTargets before
  · obtain ⟨premise, member, noWhile, declares⟩ := mem_plainTargets.mp plain
    refine ⟨fun _ => .inr (.inr (.inl plain)), fun _ whileOnly => ?_⟩
    exact absurd (whileOnly premise member declares) (by simp [noWhile])
  · have whileOnly : ∀ premise, .inferencePremise premise ∈ before →
        premise.deductionTarget.declaredName = some name → premise.whileClause.isSome = true := by
      intro premise member declares
      by_contra noWhile
      exact plain (mem_plainTargets.mpr ⟨premise, member, by simpa using noWhile, declares⟩)
    simp only [plain, false_or]
    exact ⟨fun covered => covered whileOnly, fun covered _ => covered⟩

theorem premiseMeets_resultKnown_iff (defn : ASTInferenceDefn) (premise : ASTPremiseDefn)
    (scope : Scope) : PremiseMeets (ResultKnown defn) premise scope ↔
      ∀ equality rangeClause, premise = .inferenceEquality equality →
        equality.rangeClause = some rangeClause →
        ∀ name, rangeClause.deductionTarget.declaredName = some name →
          Known defn scope.declared name := by
  match premise with
  | .inferencePremise ⟨_, target, none⟩ =>
      cases target <;> simp [PremiseMeets, plainPremiseStmts, Along, ResultKnown, Stmt.result]
  | .inferencePremise ⟨_, _, some _⟩ => simp [PremiseMeets]
  | .inferenceEquality ⟨lhs, rhs, oprt, none⟩ =>
      constructor
      · rintro - _ _ ⟨⟩ ⟨⟩
      · simp [PremiseMeets, equalityStmts, Along, ResultKnown, Stmt.result]
  | .inferenceEquality ⟨lhs, rhs, oprt, some rangeClause⟩ =>
      simp only [PremiseMeets, equalityStmts, Along, ResultKnown, Stmt.result, root_targetExpr]
      constructor
      · rintro ⟨bounded, -⟩ _ _ ⟨⟩ ⟨⟩
        exact bounded
      · exact fun bounded => ⟨bounded _ _ rfl rfl, by simp⟩

/-- Exactly if nothing rests on the target of a while premise alone, the results
and range bounds of a function are declared in it. -/
theorem resultsDeclared_iff (defn : ASTInferenceDefn) (nameId : UInt32) :
    ResultsDeclared defn (bodyStmts opts defn nameId) ↔ ResultsCovered defn nameId := by
  have idle : ∀ stmt declared, stmt.Idle → ResultKnown defn stmt declared := by
    intro stmt _ idle
    cases stmt <;> simp_all [Stmt.Idle, ResultKnown, Stmt.result]
  rw [ResultsDeclared, bodyStmts_forall_iff opts idle]
  simp only [premiseMeets_resultKnown_iff, ResultKnown, Stmt.result, root_propositionExpr,
    ← coveredAfter_iff]
  constructor
  · rintro ⟨rangeBounds, proposition⟩
    exact ⟨fun before premise rest rangeClause split clause =>
      rangeBounds before _ rest split premise rangeClause rfl clause, proposition⟩
  · rintro ⟨rangeBounds, proposition⟩
    refine ⟨?_, proposition⟩
    rintro before _ rest split premise rangeClause rfl clause
    exact rangeBounds before premise rest rangeClause split clause

/-- `assumingDefn`, but it returns the type it assumes. -/
def returningAssumption : ASTInferenceDefn where
  name := "ReturningAssumption"
  globalDecls := [⟨"LEFT"⟩, ⟨"RIGHT"⟩]
  arguments := [⟨"expr", "ASTExpr"⟩]
  premiseDefns := [.inferencePremise ⟨⟨["expr", "type"]⟩, .singular "Assumed", some [
    .inferenceEquality ⟨.singular "LEFT", .singular "RIGHT", .operatorEq, none⟩]⟩]
  propositionDefn := ⟨.singular "Assumed"⟩

/-- The type it returns is declared nowhere. -/
theorem assumption_undeclared :
    (SemanticAnalyzer.run ⟨true, true, false⟩ (.ofInference returningAssumption)).value = true ∧
      ¬ ResultsDeclared returningAssumption
        (bodyStmts ⟨false, true, "", ""⟩ returningAssumption 0) :=
  ⟨by decide, fun declared =>
    absurd (declared _ _ [] rfl "Assumed" rfl) (by unfold Known; decide)⟩

/-! ## Operands of comparisons -/

/-- Every variable a comparison of the statement reads is a parameter, a global,
a declared variable or a counter of the loop around it. -/
def ComparisonsKnown (defn : ASTInferenceDefn) (stmt : Stmt) (declared : List StringType) : Prop :=
  ∀ counters comparison, (counters, comparison) ∈ stmt.comparisons [] →
    ∀ name ∈ comparison.variables, name ∈ parameterNames opts defn ∨ name ∈ defn.globalNames ∨
      name ∈ declared ∨ name ∈ counters

/-- Each operand of an equality premise that is not computed names an argument,
a global or the target of an earlier premise, and no comparison of the body reads
an undeclared name. -/
structure OperandsDeclared (defn : ASTInferenceDefn) (body : List Stmt) : Prop where
  named : ∀ before premise rest, defn.allPremises = before ++ .inferenceEquality premise :: rest →
    ∀ operand, operand = premise.lhs ∨ operand = premise.rhs →
    ∀ name, operand.declaredName = some name →
      name ∈ defn.argumentNames ∨ name ∈ defn.globalNames ∨
        ∃ target ∈ ASTPremiseDefn.targets before, target.declaredName = some name
  read : ∀ before stmt rest, body = before ++ stmt :: rest →
    ComparisonsKnown opts defn stmt (declaredNames before)

/-- The analyser could have looked the operand up among the symbols and in the
target table, as it does for sources, range bounds and propositions. -/
def FoundBy (symbolSet : SymbolSet) (targetTbl : TargetTable) (operand : ASTDeductionTarget) : Prop :=
  ∀ name, operand.declaredName = some name → name ∈ symbolSet ∨ (targetTbl name).isSome = true

/-- At each equality premise the analyser could have found the operands, and the
operands mention only what is in scope: parameters, globals, targets of premises
without while clause, temporaries and the counters of the premise's own loop. -/
structure OperandsKnown (defn : ASTInferenceDefn) (nameId : UInt32) : Prop where
  found : ∀ before premise rest, defn.allPremises = before ++ .inferenceEquality premise :: rest →
    ∀ operand, operand = premise.lhs ∨ operand = premise.rhs →
      FoundBy (defn.argumentNames.toFinset ∪ defn.globalNames.toFinset)
        (SemanticAnalyzer.tableAfter before) operand
  mentioned : ∀ before premise rest, defn.allPremises = before ++ .inferenceEquality premise :: rest →
    ∀ name ∈ premise.lhs.mentions ++ premise.rhs.mentions,
      name ∈ parameterNames opts defn ∨ name ∈ defn.globalNames ∨ name ∈ plainTargets before ∨
        name ∈ temporaries nameId (temporaryCount before) ∨
        premise.rangeClause.isSome = true ∧ (name = "i" ∨ name = "j")

theorem foundBy_iff (defn : ASTInferenceDefn) (before : List ASTPremiseDefn)
    (operand : ASTDeductionTarget) :
    FoundBy (defn.argumentNames.toFinset ∪ defn.globalNames.toFinset)
        (SemanticAnalyzer.tableAfter before) operand ↔
      ∀ name, operand.declaredName = some name →
        name ∈ defn.argumentNames ∨ name ∈ defn.globalNames ∨
          ∃ target ∈ ASTPremiseDefn.targets before, target.declaredName = some name := by
  simp only [FoundBy, Finset.mem_union, List.mem_toFinset, or_assoc]
  refine forall₂_congr fun name _ => or_congr_right (or_congr_right ?_)
  constructor
  · intro found
    obtain ⟨target, entry⟩ := Option.isSome_iff_exists.mp found
    exact ⟨target, SemanticAnalyzer.tableAfter_some entry⟩
  · rintro ⟨target, member, named⟩
    exact Option.isSome_iff_exists.mpr (SemanticAnalyzer.tableAfter_isSome member named)

theorem comparisons_errorHandling (counters : List StringType) :
    Stmt.comparisonsList counters errorHandling = [] := rfl

theorem premiseMeets_comparisonsKnown_iff (defn : ASTInferenceDefn) (premise : ASTPremiseDefn)
    (scope : Scope) : PremiseMeets (ComparisonsKnown opts defn) premise scope ↔
      ∀ equality, premise = .inferenceEquality equality →
        ∀ name ∈ equality.lhs.mentions ++ equality.rhs.mentions,
          name ∈ parameterNames opts defn ∨ name ∈ defn.globalNames ∨ name ∈ scope.declared ∨
            equality.rangeClause.isSome = true ∧ (name = "i" ∨ name = "j") := by
  match premise with
  | .inferencePremise ⟨_, target, none⟩ =>
      cases target <;> simp [PremiseMeets, plainPremiseStmts, Along, ComparisonsKnown, Stmt.comparisons,
        comparisons_errorHandling, Comparison.variables, Operand.variables, Expr.variables, Stmt.enter,
        Stmt.declares]
  | .inferencePremise ⟨_, _, some _⟩ => simp [PremiseMeets]
  | .inferenceEquality ⟨lhs, rhs, oprt, none⟩ =>
      simp [PremiseMeets, equalityStmts, Along, ComparisonsKnown, Stmt.comparisons,
        comparisons_errorHandling, Comparison.variables, Operand.variables, variables_targetExpr]
  | .inferenceEquality ⟨lhs, rhs, oprt, some rangeClause⟩ =>
      -- The counters are read as well, as subscripts; they are in scope.
      simp only [PremiseMeets, equalityStmts, Along, ComparisonsKnown, Stmt.comparisons,
        Stmt.comparisonsList, comparisons_errorHandling, Comparison.variables, Operand.variables]
      simp only [List.append_nil, List.mem_singleton, Prod.mk.injEq, List.not_mem_nil,
        IsEmpty.forall_iff, implies_true, and_true, ASTPremiseDefn.inferenceEquality.injEq]
      constructor
      · rintro known _ rfl name mentioned
        have read := known _ _ ⟨rfl, rfl⟩ name (by simp [variables_targetExpr] at mentioned ⊢; tauto)
        simpa using read
      · rintro known counters comparison ⟨rfl, rfl⟩ name read
        by_cases counter : name = "i" ∨ name = "j"
        · exact .inr (.inr (.inr (by simpa using counter)))
        · simpa using known _ rfl name (by simp [variables_targetExpr] at read ⊢; tauto)

/-- Exactly if the analyser could have found the operands of equality premises,
and they mention only what is in scope, are they declared where they are read. -/
theorem operandsDeclared_iff (defn : ASTInferenceDefn) (nameId : UInt32) :
    OperandsDeclared opts defn (bodyStmts opts defn nameId) ↔ OperandsKnown opts defn nameId := by
  have idle : ∀ stmt declared, stmt.Idle → ComparisonsKnown opts defn stmt declared := by
    intro stmt _ idle
    cases stmt <;> simp_all [Stmt.Idle, ComparisonsKnown, Stmt.comparisons]
  have result : ∀ value declared, ComparisonsKnown opts defn (.returnValue value) declared := by
    simp [ComparisonsKnown, Stmt.comparisons]
  have read := bodyStmts_forall_iff opts idle defn nameId
  simp only [premiseMeets_comparisonsKnown_iff, result, and_true, mem_scopeAfter, or_assoc] at read
  constructor
  · rintro ⟨named, known⟩
    refine ⟨fun before premise rest split operand which =>
      (foundBy_iff ..).mpr (named before premise rest split operand which), ?_⟩
    exact fun before premise rest split => read.mp known before _ rest split premise rfl
  · rintro ⟨found, mentioned⟩
    refine ⟨fun before premise rest split operand which =>
      (foundBy_iff ..).mp (found before premise rest split operand which), read.mpr ?_⟩
    rintro before _ rest split premise rfl
    exact mentioned before premise rest split

/-- An inference that compares two types it knows nothing of. -/
def comparingUnknown : ASTInferenceDefn where
  name := "ComparingUnknown"
  globalDecls := []
  arguments := [⟨"expr", "ASTExpr"⟩]
  premiseDefns := [.inferenceEquality ⟨.singular "LEFT", .singular "RIGHT", .operatorEq, none⟩]
  propositionDefn := ⟨.computed "result" []⟩

/-- It is accepted. -/
theorem operand_undeclared :
    (SemanticAnalyzer.run ⟨true, true, false⟩ (.ofInference comparingUnknown)).value = true ∧
      ¬ OperandsDeclared ⟨false, true, "", ""⟩ comparingUnknown
        (bodyStmts ⟨false, true, "", ""⟩ comparingUnknown 0) :=
  ⟨by decide, fun declared =>
    absurd (declared.named [] _ [] rfl _ (.inl rfl) "LEFT" rfl) (by decide)⟩

end Synthesizer

end Snowlake
