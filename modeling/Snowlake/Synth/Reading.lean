import Snowlake.Synth.Emitted

/-! # The statements of a synthesized function

What the synthesizer writes into the .cpp file for an inference definition is
the text of a list of statements, and here is that list.  That the hooks write
its text, and number premises and temporaries as it does, is shown in
`Refinement.lean`.
-/

namespace Snowlake

namespace Synthesizer

open Emitted

/-! ## Statements -/

mutual
/-- `synthesizeDeductionTarget` in the mode `AS_SINGULAR`. -/
def targetExpr : ASTDeductionTarget → Expr
  | .singular name => .ident name
  | .array name _ => .ident name
  | .computed name arguments => .call name (targetExprs arguments)

def targetExprs : List ASTDeductionTarget → List Expr
  | [] => []
  | head :: tail => targetExpr head :: targetExprs tail
end

/-- `synthesizeDeductionTarget` in the mode `AS_ARRAY`. -/
def propositionExpr : ASTDeductionTarget → Expr
  | .singular name => .ident name
  | .array name (some size) => .element name size
  | .array name none => .deref name
  | .computed name arguments => .call name (targetExprs arguments)

/-- The counters the synthesizer carries from premise to premise. -/
structure Numbering where
  nameId : UInt32
  numPremisesProcessed : UInt32
  deriving Repr, DecidableEq

def varName (nameId : UInt32) : StringType := "var" ++ toString nameId.toNat

theorem varName_injective {first second : UInt32} (same : varName first = varName second) :
    first = second := by
  have texts : (toString first.toNat).toList = (toString second.toNat).toList := by
    have lists := congrArg String.toList same
    simpa only [varName, String.toList_append, List.append_cancel_left_eq] using lists
  rw [Nat.toString_eq_repr, Nat.toString_eq_repr, Nat.toList_repr, Nat.toList_repr] at texts
  have values := congrArg (Nat.ofDigitChars 10 · 0) texts
  simp only [Nat.ofDigitChars_ten_toDigits] at values
  exact UInt32.toNat_inj.mp values

def annotationLines (opts : Options) (numbering : Numbering) : List Stmt :=
  if opts.suppressAnnotationComments then []
  else [.comment (premiseComment (numbering.numPremisesProcessed + 1))]

/-- The branch of a failed comparison. -/
def errorHandling : List Stmt := [.setError 0, .returnDefault]

/-- An inference premise without while clause: a target is declared, a computed
target is compared with what the source proves. -/
def plainPremiseStmts (nameId : UInt32) (source : ASTIdentifiable) :
    ASTDeductionTarget → List Stmt
  | .singular name => [.declare .typeClass name (.proof source), .blank]
  | .array name _ => [.declare .vector name (.proof source), .blank]
  | .computed name arguments =>
      [.declare .typeClass (varName nameId) (.value (targetExpr (.computed name arguments))),
        .declare .typeClass (varName (nameId + 1)) (.proof source),
        .ifNot ⟨⟨.ident (varName nameId), none⟩, ⟨.ident (varName (nameId + 1)), none⟩, none⟩
          errorHandling,
        .blank]

def setupStmts (source : ASTIdentifiable) (target : ASTDeductionTarget) : List Stmt :=
  [.blank, .comment setupComment, .setup source (targetExpr target), .blank]

def teardownStmts (source : ASTIdentifiable) (target : ASTDeductionTarget) : List Stmt :=
  [.comment teardownComment, .teardown source (targetExpr target), .blank]

def equalityStmts (defn : ASTInferenceEqualityDefn) : List Stmt :=
  match defn.rangeClause with
  | none =>
      [.ifNot ⟨⟨targetExpr defn.lhs, none⟩, ⟨targetExpr defn.rhs, none⟩, some defn.oprt⟩ errorHandling]
  | some rangeClause =>
      [.forRange rangeClause.lhsIdx rangeClause.rhsIdx (targetExpr rangeClause.deductionTarget)
        [.ifNot ⟨⟨targetExpr defn.lhs, some "i"⟩, ⟨targetExpr defn.rhs, some "j"⟩, some defn.oprt⟩
          errorHandling],
        .blank]

mutual
/-- The counters after a premise. -/
def advance : ASTPremiseDefn → Numbering → Numbering
  | .inferencePremise ⟨_, target, none⟩, ⟨nameId, num⟩ =>
      ⟨if target.isComputed then nameId + 1 + 1 else nameId, num + 1⟩
  | .inferencePremise ⟨_, _, some body⟩, numbering =>
      ⟨(advanceList body numbering).nameId, (advanceList body numbering).numPremisesProcessed + 1⟩
  | .inferenceEquality _, numbering => numbering

def advanceList : List ASTPremiseDefn → Numbering → Numbering
  | [], numbering => numbering
  | head :: tail, numbering => advanceList tail (advance head numbering)
end

variable (opts : Options)

mutual
/-- The statements of a premise. -/
def premiseStmts : ASTPremiseDefn → Numbering → List Stmt
  | .inferencePremise ⟨source, target, none⟩, numbering =>
      annotationLines opts numbering ++ plainPremiseStmts numbering.nameId source target
  | .inferencePremise ⟨source, target, some body⟩, numbering =>
      annotationLines opts numbering ++ setupStmts source target ++ premiseListStmts body numbering ++
        teardownStmts source target
  | .inferenceEquality defn, _ => equalityStmts defn

def premiseListStmts : List ASTPremiseDefn → Numbering → List Stmt
  | [], _ => []
  | head :: tail, numbering =>
      premiseStmts head numbering ++ premiseListStmts tail (advance head numbering)
end

/-- The body of the function of an inference definition, when the first unused
number of a temporary is `nameId`. -/
def bodyStmts (defn : ASTInferenceDefn) (nameId : UInt32) : List Stmt :=
  premiseListStmts opts defn.premiseDefns ⟨nameId, 0⟩ ++
    [.returnValue (propositionExpr defn.propositionDefn.target)]

/-- The first unused number after the function of `defn`. -/
def nameIdAfter (defn : ASTInferenceDefn) (nameId : UInt32) : UInt32 :=
  (advanceList defn.premiseDefns ⟨nameId, 0⟩).nameId

/-- The declaration of a member function. -/
def declarationLine (typeCls : StringType) (defn : ASTInferenceDefn) : String :=
  typeCls ++ " " ++ defn.name ++ "(" ++ synthesizeArgumentList defn.arguments ++
    (if opts.useException then "" else ", std::error_code*") ++ ");\n\n"

/-- The definition of a member function up to its opening brace. -/
def signatureText (typeCls clsName : StringType) (defn : ASTInferenceDefn) : String :=
  typeCls ++ "\n" ++ clsName ++ "::" ++ defn.name ++ "(" ++
    synthesizeArgumentList defn.arguments ++
    (if opts.useException then ""
      else ", std::error_code* " ++ defaultErrorOutputParameterName) ++ ")\n\x7b\n"

/-- What is written to the header file for an inference definition. -/
def declarationText (typeCls : StringType) (defn : ASTInferenceDefn) : String :=
  renderInferenceDefinitionMethodAnnotationComment opts defn.name 1 ++
    (renderIndentation 1 ++ declarationLine opts typeCls defn)

/-- What is written to the .cpp file for an inference definition. -/
def definitionText (names : Names) (clsName : StringType) (defn : ASTInferenceDefn)
    (nameId : UInt32) : String :=
  "\n" ++ (renderInferenceDefinitionMethodAnnotationComment opts defn.name 0 ++
    (signatureText opts names.typeCls clsName defn ++
      (Stmt.renderList names 1 (bodyStmts opts defn nameId) ++ "\x7d\n")))

/-! ## Their text -/

mutual
theorem render_targetExpr (typeCls : StringType) (target : ASTDeductionTarget) :
    (targetExpr target).render = synthesizeDeductionTarget typeCls target .asSingular := by
  cases target with
  | singular => simp only [targetExpr, Expr.render, synthesizeDeductionTarget]
  | array _ size =>
      cases size <;> simp only [targetExpr, Expr.render, synthesizeDeductionTarget]
  | computed name arguments =>
      simp only [targetExpr, Expr.render, synthesizeDeductionTarget,
        render_targetExprs typeCls arguments]

theorem render_targetExprs (typeCls : StringType) (targets : List ASTDeductionTarget) :
    Expr.renderList (targetExprs targets) = synthesizeDeductionTargetArguments typeCls targets := by
  match targets with
  | [] => rfl
  | [argument] =>
      simp only [targetExprs, Expr.renderList, synthesizeDeductionTargetArguments,
        render_targetExpr typeCls argument]
  | argument :: next :: rest =>
      have tail := render_targetExprs typeCls (next :: rest)
      simp only [targetExprs] at tail
      simp only [targetExprs, Expr.renderList, synthesizeDeductionTargetArguments,
        render_targetExpr typeCls argument, tail]
end

theorem render_propositionExpr (typeCls : StringType) (target : ASTDeductionTarget) :
    (propositionExpr target).render = synthesizeDeductionTarget typeCls target .asArray := by
  cases target with
  | singular => simp only [propositionExpr, Expr.render, synthesizeDeductionTarget]
  | array _ size =>
      cases size <;> simp only [propositionExpr, Expr.render, synthesizeDeductionTarget]
  | computed name arguments =>
      simp only [propositionExpr, Expr.render, synthesizeDeductionTarget,
        render_targetExprs typeCls arguments]

end Synthesizer

end Snowlake
