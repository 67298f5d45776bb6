import Snowlake.AstUtils
import Snowlake.AstVisitor
import Snowlake.Lib.Checking
import Mathlib.Data.Finset.Basic

/-! # The semantic analyser

`src/SemanticAnalyzer.cpp`.  The macros `ON_ERROR`, `ON_WARNING` and
`RETURN_ON_FAILURE` are `onError`, `onWarning` and `returnOnFailure` of
`Checking`; a function with `INIT_RES` and `DEFAULT_RETURN` around its body is
`call` or `callLocal` of that body.
-/

namespace Snowlake

open Checking Checking.Check

/-- `typedef std::unordered_set<std::string>`. -/
abbrev SymbolSet := Finset StringType

/-- `enum SemanticAnalysisErrorCodes`. -/
inductive SemanticAnalysisErrorCode where
  | duplicateInferenceGroupIdentifier
  | duplicateInferenceDefnIdentifier
  | duplicateEnvironmentDefnField
  | duplicateGlobalDefinition
  | duplicateArgumentIdentifier
  | invalidTargetType
  | missingRequiredEnvironmentDefnField
  | unknownSymbol
  | incompatibleTargetType
  | unknownPremiseDefn
  deriving Repr, DecidableEq

namespace SemanticAnalysisErrorCode

/-- The enumerators count from 16. -/
def code : SemanticAnalysisErrorCode → UInt32
  | duplicateInferenceGroupIdentifier => 16
  | duplicateInferenceDefnIdentifier => 17
  | duplicateEnvironmentDefnField => 18
  | duplicateGlobalDefinition => 19
  | duplicateArgumentIdentifier => 20
  | invalidTargetType => 21
  | missingRequiredEnvironmentDefnField => 22
  | unknownSymbol => 23
  | incompatibleTargetType => 24
  | unknownPremiseDefn => 25

/-- `CategoryMessageByCode`. -/
def categoryMessage : SemanticAnalysisErrorCode → String
  | duplicateInferenceGroupIdentifier => "duplicate infernece group identifier"
  | duplicateInferenceDefnIdentifier => "duplicate inference definition identifier"
  | duplicateEnvironmentDefnField => "duplicate environment definition field"
  | duplicateGlobalDefinition => "duplicate global symbol definition"
  | duplicateArgumentIdentifier => "duplicate argument identifier"
  | invalidTargetType => "invalid target type"
  | missingRequiredEnvironmentDefnField => "missing required environment definition field"
  | unknownSymbol => "unknown symbol"
  | incompatibleTargetType => "incompatible target type"
  | unknownPremiseDefn => "unknown premise definition"

end SemanticAnalysisErrorCode

/-- A `CompilerError` without its `type`, which is the severity of the report. -/
structure Diagnostic where
  code : UInt32
  msg : String
  categoryName : String
  categoryMessage : String
  deriving Repr, DecidableEq

/-- `snprintf` into a zeroed buffer of `size` characters. -/
def snprintf (size : Nat) (text : String) : String :=
  String.ofList (text.toList.take (size - 1))

/-! Keys of environment definitions, `src/format_defn.h`. -/

def envnDefnKeyForClass : StringType := "ClassName"
def envnDefnKeyForTypeClass : StringType := "TypeClass"
def envnDefnKeyForProofMethod : StringType := "ProofMethod"
def envnDefnKeyForTypeCmpMethod : StringType := "TypeCmpMethod"
def envnDefnKeyForTypeAnnotationSetupMethod : StringType := "TypeAnnotationSetupMethod"
def envnDefnKeyForTypeAnnotationTeardownMethod : StringType := "TypeAnnotationTeardownMethod"

namespace SemanticAnalyzer

structure Options where
  bailOnFirstError : Bool
  warningsAsErrors : Bool
  verbose : Bool
  deriving Repr, DecidableEq

def Options.policy (opts : Options) : Policy := ⟨opts.bailOnFirstError, opts.warningsAsErrors⟩

/-- `MAX_MSG_LEN`. -/
def maxMsgLen : Nat := 1024

/-- The error `addError` and `addWarning` create. -/
def diagnostic (code : SemanticAnalysisErrorCode) (text : String) : Diagnostic :=
  ⟨code.code, snprintf maxMsgLen text, "semantic analysis error", code.categoryMessage⟩

/-- `struct InferenceDefnContext`, but for `targetTbl`, the member the checks of
the premises change: it is their local state. -/
structure InferenceDefnContext where
  name : StringType
  symbolSet : SymbolSet

/-- The loops that insert names into a set and report those already there. -/
def insertDistinct {σ : Type} (report : StringType → Check Diagnostic σ Unit) :
    List StringType → SymbolSet → Check Diagnostic σ SymbolSet
  | [], nameSet => pure nameSet
  | name :: rest, nameSet => do
      if name ∈ nameSet then
        report name
        insertDistinct report rest nameSet
      else
        insertDistinct report rest (insert name nameSet)

def mandatoryEnvDefns : List StringType :=
  [envnDefnKeyForClass, envnDefnKeyForTypeClass, envnDefnKeyForProofMethod,
    envnDefnKeyForTypeCmpMethod]

variable (policy : Policy)

def checkRequiredEnvDefns (envDefns : SymbolSet) : Reported Diagnostic Bool :=
  callLocal (do
    mandatoryEnvDefns.forM fun defn =>
      when (defn ∉ envDefns) <| onError policy (diagnostic .missingRequiredEnvironmentDefnField
        ("Missing required environment definition field \"" ++ defn ++ "\"."))) ()

/-! ## The premises -/

/-- The source of an inference premise. -/
def sourceCheck (context : InferenceDefnContext) (source : ASTIdentifiable) :
    Check Diagnostic TargetTable Unit :=
  let sourceRoot := ASTUtils.getRootOfASTIdentifiable source
  when (sourceRoot ∉ context.symbolSet) <| onError policy (diagnostic .unknownSymbol
    ("Unknown symbol \"" ++ sourceRoot ++ "\" used in inference \"" ++ context.name ++ "\"."))

/-- The target of an inference premise. -/
def targetCheck (context : InferenceDefnContext) (target : ASTDeductionTarget) :
    Check Diagnostic TargetTable Unit := do
  let targetTbl ← get
  when (ASTUtils.hasIncompatibleTargetInTable target targetTbl) <|
    onError policy (diagnostic .incompatibleTargetType
      ("Found duplicate and incompatible target in inference \"" ++ context.name ++ "\"."))
  modify (ASTUtils.addTargetToTable target)

/-- The range clause of an equality premise. -/
def rangeClauseCheck (context : InferenceDefnContext) (rangeClause : ASTRangeClause) :
    Check Diagnostic TargetTable Unit := do
  when rangeClause.deductionTarget.isSingular <|
    onError policy (diagnostic .invalidTargetType
      ("Invalid target in range clause in inference \"" ++ context.name ++ "\"."))
  let targetTbl ← get
  when (!ASTUtils.hasCompatibleTargetInTable rangeClause.deductionTarget targetTbl) <|
    onError policy (diagnostic .invalidTargetType
      ("Invalid target in range clause in inference \"" ++ context.name ++ "\"."))

/-- `recursivePremiseDefnCheck(const ASTInferenceEqualityDefn&, ...)`. -/
def equalityDefnCheck (context : InferenceDefnContext) (defn : ASTInferenceEqualityDefn) :
    TargetTable → Reported Diagnostic (Bool × TargetTable) :=
  call do
    when (!ASTUtils.areTargetsCompatible defn.lhs defn.rhs) <|
      onError policy (diagnostic .incompatibleTargetType
        ("Incompatible targets in expression in inference \"" ++ context.name ++ "\"."))
    match defn.rangeClause with
    | none => pure ()
    | some rangeClause => rangeClauseCheck policy context rangeClause

mutual
/-- `recursivePremiseDefnCheck(const ASTPremiseDefn&, ...)`, with its instance
for `ASTInferencePremiseDefn`.  The branch that reports an unknown type of
premise is for an empty variant. -/
def recursivePremiseDefnCheck (context : InferenceDefnContext) :
    ASTPremiseDefn → TargetTable → Reported Diagnostic (Bool × TargetTable)
  | .inferencePremise ⟨source, target, none⟩ =>
      call <| returnOnFailure <| call do
        sourceCheck policy context source
        targetCheck policy context target
  | .inferencePremise ⟨source, target, some body⟩ =>
      call <| returnOnFailure <| call do
        sourceCheck policy context source
        targetCheck policy context target
        premiseDefnsCheck context body
  | .inferenceEquality defn =>
      call <| returnOnFailure <| equalityDefnCheck policy context defn

/-- The loops that check the premises of a while clause or of an inference. -/
def premiseDefnsCheck (context : InferenceDefnContext) :
    List ASTPremiseDefn → Check Diagnostic TargetTable Unit
  | [] => pure ()
  | head :: tail => do
      returnOnFailure (recursivePremiseDefnCheck context head)
      premiseDefnsCheck context tail
end

/-! ## The hooks -/

def previsitModule (module : ASTModule) : Reported Diagnostic Bool :=
  callLocal (do
    let _ ← insertDistinct (fun name => onError policy (diagnostic .duplicateInferenceGroupIdentifier
        ("Found multiple inference group with name \"" ++ name ++ "\".")))
      (module.inferenceGroups.map (·.name)) ∅) ()

def previsitInferenceGroup (inferenceGroup : ASTInferenceGroup) : Reported Diagnostic Bool :=
  callLocal (do
    let nameSet ← insertDistinct (fun field => onWarning policy (diagnostic .duplicateEnvironmentDefnField
        ("Found repeated environment field \"" ++ field ++ "\".")))
      (inferenceGroup.environmentDefns.map (·.field)) ∅
    returnUnless (checkRequiredEnvDefns policy nameSet)
    let _ ← insertDistinct (fun name => onError policy (diagnostic .duplicateInferenceDefnIdentifier
        ("Found multiple inference definition with name \"" ++ name ++ "\".")))
      (inferenceGroup.inferenceDefns.map (·.name)) ∅) ()

def previsitInferenceDefn (inferenceDefn : ASTInferenceDefn) : Reported Diagnostic Bool :=
  callLocal (do
    let globals ← insertDistinct (fun name => onWarning policy (diagnostic .duplicateGlobalDefinition
        ("Found duplicate symbol (global declaration) with name \"" ++ name ++ "\".")))
      (inferenceDefn.globalDecls.map (·.name)) ∅
    let symbolSet ← insertDistinct (fun name => onError policy (diagnostic .duplicateArgumentIdentifier
        ("Found duplicate symbol (argument) with name \"" ++ name ++ "\".")))
      (inferenceDefn.arguments.map (·.name)) globals
    premiseDefnsCheck policy ⟨inferenceDefn.name, symbolSet⟩ inferenceDefn.premiseDefns
    let targetTbl ← get
    when (!ASTUtils.hasCompatibleTargetInTable inferenceDefn.propositionDefn.target targetTbl) <|
      onError policy (diagnostic .invalidTargetType
        ("Invalid proposition target type in inference \"" ++ inferenceDefn.name ++ "\".")))
    (fun _ => none)

/-- `SemanticAnalyzer` as a visitor. -/
def visitor : ASTVisitor (Reported Diagnostic) where
  previsitModule := previsitModule policy
  previsitInferenceGroup := previsitInferenceGroup policy
  previsitInferenceDefn := previsitInferenceDefn policy

/-- `SemanticAnalyzer::run`, with the errors it registers. -/
def run (opts : Options) (module : ASTModule) : Reported Diagnostic Bool :=
  (visitor opts.policy).visitModule module

end SemanticAnalyzer

end Snowlake
