import Snowlake.Ast

/-! # The visitor

`src/ASTVisitor.cpp`: the fixed order in which a module is walked, over hooks
with effects in a monad `m`.  A hook that answers `false` ends the whole walk.
The walk enters neither a while clause nor the arguments of a computed target;
a hook that wants them visited calls `visit` itself.
-/

namespace Snowlake

/-- The virtual members of `ASTVisitor`, with the bodies the base class gives them. -/
structure ASTVisitor (m : Type → Type) [Monad m] where
  previsitModule : ASTModule → m Bool := fun _ => pure true
  postvisitModule : ASTModule → m Bool := fun _ => pure true
  previsitInferenceGroup : ASTInferenceGroup → m Bool := fun _ => pure true
  postvisitInferenceGroup : ASTInferenceGroup → m Bool := fun _ => pure true
  previsitEnvironmentDefn : ASTEnvironmentDefn → m Bool := fun _ => pure true
  postvisitEnvironmentDefn : ASTEnvironmentDefn → m Bool := fun _ => pure true
  previsitInferenceDefn : ASTInferenceDefn → m Bool := fun _ => pure true
  postvisitInferenceDefn : ASTInferenceDefn → m Bool := fun _ => pure true
  previsitGlobalDecl : ASTGlobalDecl → m Bool := fun _ => pure true
  postvisitGlobalDecl : ASTGlobalDecl → m Bool := fun _ => pure true
  previsitInferenceArgument : ASTInferenceArgument → m Bool := fun _ => pure true
  postvisitInferenceArgument : ASTInferenceArgument → m Bool := fun _ => pure true
  previsitInferencePremiseDefn : ASTInferencePremiseDefn → m Bool := fun _ => pure true
  postvisitInferencePremiseDefn : ASTInferencePremiseDefn → m Bool := fun _ => pure true
  previsitInferenceEqualityDefn : ASTInferenceEqualityDefn → m Bool := fun _ => pure true
  postvisitInferenceEqualityDefn : ASTInferenceEqualityDefn → m Bool := fun _ => pure true
  previsitPropositionDefn : ASTPropositionDefn → m Bool := fun _ => pure true
  postvisitPropositionDefn : ASTPropositionDefn → m Bool := fun _ => pure true
  previsitDeductionTarget : ASTDeductionTarget → m Bool := fun _ => pure true
  postvisitDeductionTarget : ASTDeductionTarget → m Bool := fun _ => pure true
  previsitDeductionTargetSingular : StringType → m Bool := fun _ => pure true
  postvisitDeductionTargetSingular : StringType → m Bool := fun _ => pure true
  previsitDeductionTargetArray : StringType → Option IntegerType → m Bool := fun _ _ => pure true
  postvisitDeductionTargetArray : StringType → Option IntegerType → m Bool := fun _ _ => pure true
  previsitDeductionTargetComputed : StringType → List ASTDeductionTarget → m Bool :=
    fun _ _ => pure true
  postvisitDeductionTargetComputed : StringType → List ASTDeductionTarget → m Bool :=
    fun _ _ => pure true

namespace ASTVisitor

variable {m : Type → Type} [Monad m]

/-- `VERIFY(x)` and the statements after it. -/
def verify (step rest : m Bool) : m Bool := do
  if ← step then rest else pure false

/-- The `for` loops of the source, one `VISIT_AND_VERIFY` per element. -/
def visitAll {α : Type} (visit : α → m Bool) : List α → m Bool
  | [] => pure true
  | head :: tail => verify (visit head) (visitAll visit tail)

variable (visitor : ASTVisitor m)

def visitEnvironmentDefn (environmentDefn : ASTEnvironmentDefn) : m Bool :=
  verify (visitor.previsitEnvironmentDefn environmentDefn) <|
  verify (visitor.postvisitEnvironmentDefn environmentDefn) <| pure true

def visitGlobalDecl (globalDecl : ASTGlobalDecl) : m Bool :=
  verify (visitor.previsitGlobalDecl globalDecl) <|
  verify (visitor.postvisitGlobalDecl globalDecl) <| pure true

def visitInferenceArgument (argument : ASTInferenceArgument) : m Bool :=
  verify (visitor.previsitInferenceArgument argument) <|
  verify (visitor.postvisitInferenceArgument argument) <| pure true

/-- `visit` of the alternative the target holds. -/
def visitDeductionTargetValue : ASTDeductionTarget → m Bool
  | .singular name =>
      verify (visitor.previsitDeductionTargetSingular name) <|
      verify (visitor.postvisitDeductionTargetSingular name) <| pure true
  | .array name arraySize =>
      verify (visitor.previsitDeductionTargetArray name arraySize) <|
      verify (visitor.postvisitDeductionTargetArray name arraySize) <| pure true
  | .computed name arguments =>
      verify (visitor.previsitDeductionTargetComputed name arguments) <|
      verify (visitor.postvisitDeductionTargetComputed name arguments) <| pure true

def visitDeductionTarget (deductionTarget : ASTDeductionTarget) : m Bool :=
  verify (visitor.previsitDeductionTarget deductionTarget) <|
  verify (visitor.visitDeductionTargetValue deductionTarget) <|
  verify (visitor.postvisitDeductionTarget deductionTarget) <| pure true

def visitPropositionDefn (propositionDefn : ASTPropositionDefn) : m Bool :=
  verify (visitor.previsitPropositionDefn propositionDefn) <|
  verify (visitor.visitDeductionTarget propositionDefn.target) <|
  verify (visitor.postvisitPropositionDefn propositionDefn) <| pure true

def visitInferencePremiseDefn (defn : ASTInferencePremiseDefn) : m Bool :=
  verify (visitor.previsitInferencePremiseDefn defn) <|
  verify (visitor.postvisitInferencePremiseDefn defn) <| pure true

def visitInferenceEqualityDefn (defn : ASTInferenceEqualityDefn) : m Bool :=
  verify (visitor.previsitInferenceEqualityDefn defn) <|
  verify (visitor.visitDeductionTarget defn.lhs) <|
  verify (visitor.visitDeductionTarget defn.rhs) <|
  verify (visitor.postvisitInferenceEqualityDefn defn) <| pure true

def visitPremiseDefn : ASTPremiseDefn → m Bool
  | .inferencePremise defn => verify (visitor.visitInferencePremiseDefn defn) <| pure true
  | .inferenceEquality defn => verify (visitor.visitInferenceEqualityDefn defn) <| pure true

def visitInferenceDefn (inferenceDefn : ASTInferenceDefn) : m Bool :=
  verify (visitor.previsitInferenceDefn inferenceDefn) <|
  verify (visitAll visitor.visitGlobalDecl inferenceDefn.globalDecls) <|
  verify (visitAll visitor.visitInferenceArgument inferenceDefn.arguments) <|
  verify (visitAll visitor.visitPremiseDefn inferenceDefn.premiseDefns) <|
  verify (visitor.visitPropositionDefn inferenceDefn.propositionDefn) <|
  verify (visitor.postvisitInferenceDefn inferenceDefn) <| pure true

def visitInferenceGroup (inferenceGroup : ASTInferenceGroup) : m Bool :=
  verify (visitor.previsitInferenceGroup inferenceGroup) <|
  verify (visitAll visitor.visitEnvironmentDefn inferenceGroup.environmentDefns) <|
  verify (visitAll visitor.visitInferenceDefn inferenceGroup.inferenceDefns) <|
  verify (visitor.postvisitInferenceGroup inferenceGroup) <| pure true

def visitModule (module : ASTModule) : m Bool :=
  verify (visitor.previsitModule module) <|
  verify (visitAll visitor.visitInferenceGroup module.inferenceGroups) <|
  verify (visitor.postvisitModule module) <| pure true

section Lawful

variable [LawfulMonad m]

@[simp] theorem verify_pure_true (rest : m Bool) : verify (pure true) rest = rest := by
  simp [verify]

@[simp] theorem verify_then_true (step : m Bool) : verify step (pure true) = step := by
  have answered : ∀ answer : Bool, (if answer = true then pure true else pure false : m Bool) = pure answer := by
    intro answer
    cases answer <;> rfl
  simp only [verify, answered, bind_pure]

theorem verify_verify (first second third : m Bool) :
    verify (verify first second) third = verify first (verify second third) := by
  simp only [verify, bind_assoc]
  refine bind_congr fun answer => ?_
  cases answer <;> simp

theorem visitAll_pure_true {α : Type} (visit : α → m Bool) (items : List α)
    (idle : ∀ item ∈ items, visit item = pure true) : visitAll visit items = pure true := by
  induction items with
  | nil => rfl
  | cons head tail ih =>
      rw [visitAll, idle head (by simp), verify_pure_true]
      exact ih fun item member => idle item (List.mem_cons_of_mem _ member)

end Lawful

end ASTVisitor

end Snowlake
