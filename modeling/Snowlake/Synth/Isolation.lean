import Snowlake.Synth.Output

/-! # Isolation of the synthesized functions

All inferences of all groups are synthesized through one context.  What is
written for one of them is nevertheless a function of the inference and of its
group's environment definitions, but for the numbers of the temporaries: it is a
text with places for the temporaries, and the run only decides where their
numbers begin.
-/

namespace Snowlake

open Emitted

namespace Synthesizer

/-! ## Templates -/

inductive Piece where
  | text (text : String)
  /-- The place of a temporary; its number counts from the first one of the text. -/
  | temporary (offset : UInt32)
  deriving Repr, DecidableEq

abbrev Template := List Piece

namespace Template

/-- The text in which the temporaries are numbered from `first`. -/
def fill (first : UInt32) : Template → String
  | [] => ""
  | .text text :: rest => text ++ fill first rest
  | .temporary offset :: rest => varName (first + offset) ++ fill first rest

@[simp] theorem fill_append (first : UInt32) (left right : Template) :
    fill first (left ++ right) = fill first left ++ fill first right := by
  induction left with
  | nil => simp [fill]
  | cons piece rest ih =>
      cases piece <;> simp only [List.cons_append, fill, ih, String.append_assoc]

end Template

/-- Distinct places get distinct temporaries, wherever the numbers begin. -/
theorem varName_add_injective (first : UInt32) :
    Function.Injective fun offset : UInt32 => varName (first + offset) := by
  intro left right same
  exact (UInt32.add_right_inj first).mp (varName_injective same)

/-! ## The template of a definition -/

/-- The numbering whose temporaries begin at `first`. -/
def Numbering.shift (first : UInt32) (numbering : Numbering) : Numbering :=
  ⟨first + numbering.nameId, numbering.numPremisesProcessed⟩

mutual
theorem advance_shift (first : UInt32) (premise : ASTPremiseDefn) (numbering : Numbering) :
    advance premise (numbering.shift first) = (advance premise numbering).shift first := by
  match premise with
  | .inferencePremise ⟨source, target, none⟩ =>
      cases computed : target.isComputed <;>
        simp [advance, Numbering.shift, computed, UInt32.add_assoc]
  | .inferencePremise ⟨source, target, some body⟩ =>
      simp only [advance, advanceList_shift first body]
      rfl
  | .inferenceEquality defn => simp only [advance]

theorem advanceList_shift (first : UInt32) (premises : List ASTPremiseDefn) (numbering : Numbering) :
    advanceList premises (numbering.shift first) = (advanceList premises numbering).shift first := by
  match premises with
  | [] => simp only [advanceList]
  | head :: tail => simp only [advanceList, advance_shift first head, advanceList_shift first tail]
end

section Premises

variable (opts : Options) (names : Names)

/-- An inference premise without while clause.  Its comparison of two
temporaries is the only place where temporaries occur. -/
def plainPremiseTemplate (nameId : UInt32) (source : ASTIdentifiable) :
    ASTDeductionTarget → Template
  | .computed name arguments =>
      [.text (renderIndentation 1 ++ names.typeCls ++ " "), .temporary nameId,
        .text (" = " ++ (targetExpr (.computed name arguments)).render ++ ";\n" ++
          renderIndentation 1 ++ names.typeCls ++ " "), .temporary (nameId + 1),
        .text (" = " ++ Init.render names (.proof source) ++ ";\n" ++
          renderIndentation 1 ++ "if (!" ++ names.typeCmpMethod ++ "("), .temporary nameId,
        .text ", ", .temporary (nameId + 1),
        .text (", " ++ "std::equal_to<>()" ++ ")" ++ ") \x7b\n" ++
          Stmt.renderList names 2 errorHandling ++ renderIndentation 1 ++ "\x7d\n" ++ "\n")]
  | target => [.text (Stmt.renderList names 1 (plainPremiseStmts 0 source target))]

mutual
def premiseTemplate : ASTPremiseDefn → Numbering → Template
  | .inferencePremise ⟨source, target, none⟩, numbering =>
      .text (Stmt.renderList names 1 (annotationLines opts numbering)) ::
        plainPremiseTemplate names numbering.nameId source target
  | .inferencePremise ⟨source, target, some body⟩, numbering =>
      .text (Stmt.renderList names 1 (annotationLines opts numbering ++ setupStmts source target)) ::
        (premiseListTemplate body numbering ++
          [.text (Stmt.renderList names 1 (teardownStmts source target))])
  | .inferenceEquality defn, _ => [.text (Stmt.renderList names 1 (equalityStmts defn))]

def premiseListTemplate : List ASTPremiseDefn → Numbering → Template
  | [], _ => []
  | head :: tail, numbering =>
      premiseTemplate head numbering ++ premiseListTemplate tail (advance head numbering)
end

theorem fill_plainPremiseTemplate (first nameId : UInt32) (source : ASTIdentifiable)
    (target : ASTDeductionTarget) :
    Template.fill first (plainPremiseTemplate names nameId source target) =
      Stmt.renderList names 1 (plainPremiseStmts (first + nameId) source target) := by
  cases target with
  | singular | array =>
      simp only [plainPremiseTemplate, plainPremiseStmts, Template.fill, String.append_empty]
  | computed name arguments =>
      simp only [plainPremiseTemplate, plainPremiseStmts, Template.fill, Stmt.renderList, Stmt.render,
        DeclType.render, Init.render, Comparison.render, Comparison.functor, Operand.render,
        Expr.render, String.append_assoc, String.append_empty, UInt32.add_assoc]

mutual
/-- Filling the template of a premise gives its statements. -/
theorem fill_premiseTemplate (first : UInt32) (premise : ASTPremiseDefn) (numbering : Numbering) :
    Template.fill first (premiseTemplate opts names premise numbering) =
      Stmt.renderList names 1 (premiseStmts opts premise (numbering.shift first)) := by
  match premise with
  | .inferencePremise ⟨source, target, none⟩ =>
      simp only [premiseTemplate, premiseStmts, Template.fill, fill_plainPremiseTemplate,
        Stmt.renderList_append]
      rfl
  | .inferencePremise ⟨source, target, some body⟩ =>
      simp only [premiseTemplate, premiseStmts, Template.fill, Template.fill_append,
        fill_premiseListTemplate first body, Stmt.renderList_append, String.append_assoc,
        String.append_empty]
      rfl
  | .inferenceEquality defn =>
      simp only [premiseTemplate, premiseStmts, Template.fill, String.append_empty]

theorem fill_premiseListTemplate (first : UInt32) (premises : List ASTPremiseDefn)
    (numbering : Numbering) :
    Template.fill first (premiseListTemplate opts names premises numbering) =
      Stmt.renderList names 1 (premiseListStmts opts premises (numbering.shift first)) := by
  match premises with
  | [] => simp only [premiseListTemplate, premiseListStmts, Template.fill, Stmt.renderList]
  | head :: tail =>
      simp only [premiseListTemplate, premiseListStmts, Template.fill_append,
        fill_premiseTemplate first head, fill_premiseListTemplate first tail, advance_shift,
        Stmt.renderList_append]
end

end Premises

variable (opts : Options)

/-- The names environment definitions give. -/
def environmentNames (environmentDefns : List ASTEnvironmentDefn) : Names where
  typeCls := (getEnvnDefnMap environmentDefns envnDefnKeyForTypeClass).getD ""
  proofMethod := (getEnvnDefnMap environmentDefns envnDefnKeyForProofMethod).getD ""
  typeCmpMethod := (getEnvnDefnMap environmentDefns envnDefnKeyForTypeCmpMethod).getD ""
  setupMethod := (getEnvnDefnMap environmentDefns envnDefnKeyForTypeAnnotationSetupMethod).getD ""
  teardownMethod :=
    (getEnvnDefnMap environmentDefns envnDefnKeyForTypeAnnotationTeardownMethod).getD ""

def environmentClsName (environmentDefns : List ASTEnvironmentDefn) : StringType :=
  (getEnvnDefnMap environmentDefns envnDefnKeyForClass).getD ""

/-- The declaration of an inference's function, from the inference and the
environment definitions of its group. -/
def declarationOf (environmentDefns : List ASTEnvironmentDefn) (defn : ASTInferenceDefn) : String :=
  declarationText opts (environmentNames environmentDefns).typeCls defn

/-- The definition of an inference's function, from the inference and the
environment definitions of its group. -/
def definitionTemplate (environmentDefns : List ASTEnvironmentDefn) (defn : ASTInferenceDefn) :
    Template :=
  let names := environmentNames environmentDefns
  .text ("\n" ++ (renderInferenceDefinitionMethodAnnotationComment opts defn.name 0 ++
      signatureText opts names.typeCls (environmentClsName environmentDefns) defn)) ::
    (premiseListTemplate opts names defn.premiseDefns ⟨0, 0⟩ ++
      [.text (Stmt.render names 1 (.returnValue (propositionExpr defn.propositionDefn.target)) ++
        "\x7d\n")])

theorem fill_definitionTemplate (first : UInt32) (group : ASTInferenceGroup)
    (defn : ASTInferenceDefn) :
    Template.fill first (definitionTemplate opts group.environmentDefns defn) =
      definitionText opts group.names group.clsName defn first := by
  have origin : Numbering.shift first ⟨0, 0⟩ = ⟨first, 0⟩ := by
    rw [Numbering.shift, UInt32.add_zero]
  simp only [definitionTemplate, definitionText, bodyStmts, Template.fill, Template.fill_append,
    fill_premiseListTemplate, origin, Stmt.renderList_append, Stmt.renderList, String.append_assoc,
    String.append_empty]
  rfl

/-! ## Groups -/

theorem declarationsText_eq_join (typeCls : StringType) (defns : List ASTInferenceDefn) :
    declarationsText opts typeCls defns = String.join (defns.map (declarationText opts typeCls)) := by
  induction defns with
  | nil => rfl
  | cons defn rest ih => rw [declarationsText, ih, List.map_cons, String.join_cons]

/-- The functions of a group are its templates, filled from numbers of the run's choice. -/
theorem definitionsText_eq_join (group : ASTInferenceGroup) (defns : List ASTInferenceDefn)
    (nameId : UInt32) : ∃ firsts : List UInt32, firsts.length = defns.length ∧
      definitionsText opts group.names group.clsName defns nameId =
        String.join (List.zipWith Template.fill firsts
          (defns.map (definitionTemplate opts group.environmentDefns))) := by
  induction defns generalizing nameId with
  | nil => exact ⟨[], rfl, rfl⟩
  | cons defn rest ih =>
      obtain ⟨firsts, counted, text⟩ := ih (nameIdAfter defn nameId)
      refine ⟨nameId :: firsts, by rw [List.length_cons, List.length_cons, counted], ?_⟩
      rw [definitionsText, text, List.map_cons, List.zipWith_cons_cons, String.join_cons,
        fill_definitionTemplate]

/-- After a run over an accepted module with distinct class names, the header
and the .cpp file of each group are made of one text per inference.  The text is
`declarationOf` and `definitionTemplate` of the inference and the group's own
environment definitions: all that the other inferences and groups decide are the
numbers the temporaries begin at, from which distinct places get distinct ones. -/
theorem definitions_isolated (semaOpts : SemanticAnalyzer.Options) (opens : String → Bool)
    (incrementalInt : UInt64) (files : String → Option String) (module : ASTModule)
    (accepted : (SemanticAnalyzer.run semaOpts module).value = true)
    (distinct : (module.inferenceGroups.map (·.clsName)).Nodup)
    (defined : ∀ group ∈ module.inferenceGroups, group.UsesWhileClause → group.DefinesFixtures)
    (allOpen : ∀ path, opens path = true) :
    ∃ final, (run opts opens module).run { incrementalInt := incrementalInt, files := files } =
        .ok (true, final) ∧
      ∀ group ∈ module.inferenceGroups,
        final.files (headerFilepath opts group) = some (headerPreamble opts group.clsName ++
          String.join (group.inferenceDefns.map (declarationOf opts group.environmentDefns)) ++
          "\x7d;\n") ∧
        ∃ firsts : List UInt32, firsts.length = group.inferenceDefns.length ∧
          (∀ first ∈ firsts, Function.Injective fun offset : UInt32 => varName (first + offset)) ∧
          final.files (cppFilepath opts group) = some (cppPreamble opts group.clsName ++
            String.join (List.zipWith Template.fill firsts
              (group.inferenceDefns.map (definitionTemplate opts group.environmentDefns)))) := by
  have wellFormed := (SemanticAnalyzer.visitModule_iff semaOpts.policy module).mp accepted
  have idle := SynthesisContext.idle_initial incrementalInt files
  obtain ⟨final, completed, -⟩ := run_of_covered opts opens wellFormed idle allOpen
    fun group member defn inside premise nested holds =>
      defined group member (group.usesWhileClause_iff.mpr ⟨defn, inside, premise, nested, holds⟩)
  refine ⟨final, completed, ?_⟩
  intro group member
  obtain ⟨before, after, split⟩ := List.append_of_mem member
  obtain ⟨header, cpp⟩ := files_kept opts opens wellFormed distinct idle completed split
  obtain ⟨firsts, counted, text⟩ :=
    definitionsText_eq_join opts group group.inferenceDefns (nameIdAfterGroups before 0)
  refine ⟨?_, firsts, counted, fun first _ => varName_add_injective first, ?_⟩
  · rw [header, headerText, declarationsText_eq_join]
    rfl
  · rw [cpp, cppText, text]

/-- An inference that compares two temporaries. -/
def castInference : ASTInferenceDefn where
  name := "Cast"
  globalDecls := []
  arguments := [⟨"expr", "ASTExpr"⟩]
  premiseDefns := [
    .inferencePremise ⟨⟨["expr", "value"]⟩, .singular "ValueType", none⟩,
    .inferencePremise ⟨⟨["expr", "target"]⟩, .computed "upcast" [.singular "ValueType"], none⟩]
  propositionDefn := ⟨.singular "ValueType"⟩

def expressionRules : ASTInferenceGroup where
  name := "Expressions"
  environmentDefns := tutorialEnvironment
  inferenceDefns := [castInference, { castInference with name := "Coercion" }]

/-- Another class, with while clauses. -/
def callRules : ASTInferenceGroup where
  name := "Calls"
  environmentDefns := ⟨"ClassName", "CallChecker"⟩ :: tutorialEnvironment.tail ++
    [⟨"TypeAnnotationSetupMethod", "setup"⟩, ⟨"TypeAnnotationTeardownMethod", "teardown"⟩]
  inferenceDefns := [staticMethodStaticDispatch, castInference]

theorem callRules_isolated :
    ∃ final, (run twinsOptions (fun _ => true) ⟨[expressionRules, callRules]⟩).run {} = .ok (true, final) ∧
      ∀ group ∈ [expressionRules, callRules],
        final.files (headerFilepath twinsOptions group) =
          some (headerPreamble twinsOptions group.clsName ++
            String.join (group.inferenceDefns.map (declarationOf twinsOptions group.environmentDefns)) ++
            "\x7d;\n") ∧
        ∃ firsts : List UInt32, firsts.length = group.inferenceDefns.length ∧
          (∀ first ∈ firsts, Function.Injective fun offset : UInt32 => varName (first + offset)) ∧
          final.files (cppFilepath twinsOptions group) =
            some (cppPreamble twinsOptions group.clsName ++
              String.join (List.zipWith Template.fill firsts
                (group.inferenceDefns.map (definitionTemplate twinsOptions group.environmentDefns)))) :=
  definitions_isolated twinsOptions ⟨true, true, false⟩ _ 1 (fun _ => none) ⟨[expressionRules, callRules]⟩
    (by decide) (by decide) (by decide) fun _ => rfl

end Synthesizer

end Snowlake
