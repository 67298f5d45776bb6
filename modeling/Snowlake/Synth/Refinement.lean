import Snowlake.Synth.Reading

/-! # The synthesizer writes the statements

`Emits` says what a computation of the synthesizer does to its context: it
writes a text to the .cpp file, moves the counters and leaves the rest alone.
One rule per operation composes such facts, and each hook's own fact is
assembled from them.
-/

namespace Snowlake

open Emitted

namespace SynthesisContext

open Synthesizer

def numbering (context : SynthesisContext) : Numbering :=
  ⟨context.nameId, context.numPremisesProcessed⟩

/-- The context after `text` was written to the .cpp file and the counters moved. -/
def extend (context : SynthesisContext) (text : String) (numbering : Numbering) : SynthesisContext :=
  { context with
    cppFileOfs := context.cppFileOfs.write text
    nameId := numbering.nameId
    numPremisesProcessed := numbering.numPremisesProcessed }

@[simp] theorem extend_numbering (context : SynthesisContext) (text : String)
    (numbering : Numbering) : (context.extend text numbering).numbering = numbering := rfl

@[simp] theorem extend_extend (context : SynthesisContext) (first second : String)
    (middle last : Numbering) :
    (context.extend first middle).extend second last = context.extend (first ++ second) last := by
  simp [extend, OfStream.write, String.append_assoc]

@[simp] theorem extend_nothing (context : SynthesisContext) :
    context.extend "" context.numbering = context := by
  simp [extend, OfStream.write, numbering]

/-- What the hooks for the parts of an inference definition read: the names the
environment definitions give and the level of indentation.  The two fixture
methods are there if `fixtures` holds. -/
structure Serves (context : SynthesisContext) (names : Names) (fixtures : Prop)
    (indentLvl : Nat) : Prop where
  typeCls : context.typeCls = names.typeCls
  typeClass : context.envDefnMap envnDefnKeyForTypeClass = some names.typeCls
  proofMethod : context.envDefnMap envnDefnKeyForProofMethod = some names.proofMethod
  typeCmpMethod : context.envDefnMap envnDefnKeyForTypeCmpMethod = some names.typeCmpMethod
  setupMethod : fixtures →
    context.envDefnMap envnDefnKeyForTypeAnnotationSetupMethod = some names.setupMethod
  teardownMethod : fixtures →
    context.envDefnMap envnDefnKeyForTypeAnnotationTeardownMethod = some names.teardownMethod
  indentLvl : context.cppFileIndentLvl = indentLvl

theorem Serves.extend {context : SynthesisContext} {names : Names} {fixtures : Prop}
    {indentLvl : Nat} (serves : context.Serves names fixtures indentLvl) (text : String)
    (numbering : Numbering) : (context.extend text numbering).Serves names fixtures indentLvl :=
  ⟨serves.typeCls, serves.typeClass, serves.proofMethod, serves.typeCmpMethod,
    serves.setupMethod, serves.teardownMethod, serves.indentLvl⟩

theorem Serves.weaken {context : SynthesisContext} {names : Names} {fixtures fewer : Prop}
    {indentLvl : Nat} (serves : context.Serves names fixtures indentLvl) (weaker : fewer → fixtures) :
    context.Serves names fewer indentLvl :=
  ⟨serves.typeCls, serves.typeClass, serves.proofMethod, serves.typeCmpMethod,
    fun holds => serves.setupMethod (weaker holds), fun holds => serves.teardownMethod (weaker holds),
    serves.indentLvl⟩

end SynthesisContext

namespace Synthesizer

/-! ## Running -/

section Run

variable {α β : Type} {act : Synth α} {next : α → Synth β} {context context' : SynthesisContext}

theorem run_bind_of_ok {value : α} (ran : act.run context = .ok (value, context')) :
    (act >>= next).run context = (next value).run context' := by
  rw [StateT.run_bind, ran]
  rfl

theorem run_bind_of_error {fault : Fault} (ran : act.run context = .error fault) :
    (act >>= next).run context = .error fault := by
  rw [StateT.run_bind, ran]
  rfl

theorem run_verify_of_ok {step rest : Synth Bool} (ran : step.run context = .ok (true, context')) :
    (ASTVisitor.verify step rest).run context = rest.run context' :=
  run_bind_of_ok ran

theorem get_bind_run {next : SynthesisContext → Synth β} :
    (get >>= next).run context = (next context).run context := rfl

theorem envDefnAt_run_of_some {key value : StringType} (found : context.envDefnMap key = some value) :
    (envDefnAt key).run context = .ok (value, context) := by
  rw [envDefnAt, get_bind_run, found]
  rfl

theorem envDefnAt_run_of_none {key : StringType} (missing : context.envDefnMap key = none) :
    (envDefnAt key).run context = .error (.outOfRange key) := by
  rw [envDefnAt, get_bind_run, missing]
  rfl

theorem assert_run {expr : Bool} (holds : expr = true) :
    (assert expr).run context = .ok ((), context) := by
  rw [assert, if_pos holds]
  rfl

theorem indentCppFile_run (room : context.cppFileIndentLvl < sizeMax) :
    indentCppFile.run context =
      .ok ((), { context with cppFileIndentLvl := context.cppFileIndentLvl + 1 }) := by
  rw [indentCppFile, get_bind_run, run_bind_of_ok (assert_run (decide_eq_true room))]
  rfl

theorem dedentCppFile_run (inside : 1 ≤ context.cppFileIndentLvl) :
    dedentCppFile.run context =
      .ok ((), { context with cppFileIndentLvl := context.cppFileIndentLvl - 1 }) := by
  rw [dedentCppFile, get_bind_run, run_bind_of_ok (assert_run (decide_eq_true inside))]
  rfl

end Run

/-! ## What a computation emits -/

/-- From every context that serves, `act` answers `result`, having written
`text` and moved the counters from `before` to `after`. -/
def Emits (names : Names) (fixtures : Prop) {α : Type} (act : Synth α) (indentLvl : Nat)
    (before : Numbering) (text : String) (after : Numbering) (result : α) : Prop :=
  ∀ context : SynthesisContext, context.Serves names fixtures indentLvl →
    context.numbering = before → act.run context = .ok (result, context.extend text after)

namespace Emits

variable {names : Names} {fixtures : Prop} {α β : Type} {indentLvl : Nat}
  {before middle after : Numbering} {text first second : String}

theorem congr {act : Synth α} {result : α} (emits : Emits names fixtures act indentLvl before text after result)
    (same : text = first) : Emits names fixtures act indentLvl before first after result :=
  same ▸ emits

theorem pure (result : α) :
    Emits names fixtures (Pure.pure result : Synth α) indentLvl before "" before result := by
  intro context _ counted
  rw [← counted, SynthesisContext.extend_nothing]
  rfl

theorem bind {act : Synth α} {next : α → Synth β} {result : α} {result' : β}
    (here : Emits names fixtures act indentLvl before first middle result)
    (there : Emits names fixtures (next result) indentLvl middle second after result') :
    Emits names fixtures (act >>= next) indentLvl before (first ++ second) after result' := by
  intro context serves counted
  rw [run_bind_of_ok (here context serves counted),
    there _ (serves.extend first middle) (SynthesisContext.extend_numbering ..),
    SynthesisContext.extend_extend]

theorem get_bind {next : SynthesisContext → Synth β} {result : β}
    (there : ∀ context, context.Serves names fixtures indentLvl → context.numbering = before →
      Emits names fixtures (next context) indentLvl before text after result) :
    Emits names fixtures (get >>= next) indentLvl before text after result := by
  intro context serves counted
  rw [get_bind_run]
  exact there context serves counted context serves counted

theorem writeCpp (text : String) :
    Emits names fixtures (writeCpp text) indentLvl before text before () := by
  rintro context _ rfl
  rfl

theorem indentation : Emits names fixtures renderIndentationInCppFile indentLvl before
    (renderIndentation indentLvl) before () := by
  rintro context serves rfl
  rw [← serves.indentLvl]
  rfl

/-- An indented line, in the two steps the hooks write it. -/
theorem line (text : String) {next : Unit → Synth β} {result : β}
    (there : Emits names fixtures (next ()) indentLvl before second after result) :
    Emits names fixtures (renderIndentationInCppFile >>= fun _ => Synthesizer.writeCpp text >>= next)
      indentLvl before (renderIndentation indentLvl ++ text ++ second) after result :=
  (indentation.bind ((writeCpp text).bind there)).congr (String.append_assoc ..).symm

theorem envDefnAt {key value : StringType}
    (found : ∀ context : SynthesisContext, context.Serves names fixtures indentLvl →
      context.envDefnMap key = some value) :
    Emits names fixtures (envDefnAt key) indentLvl before "" before value := by
  rintro context serves rfl
  rw [envDefnAt_run_of_some (found context serves), SynthesisContext.extend_nothing]

theorem lift {value : Except Fault α} {result : α} (answers : value = .ok result) :
    Emits names fixtures (liftM value : Synth α) indentLvl before "" before result := by
  subst answers
  exact pure result

/-- A step that answers without a trace, then the rest. -/
theorem silently {act : Synth α} {next : α → Synth β} {result : α} {result' : β}
    (here : Emits names fixtures act indentLvl before "" before result)
    (there : Emits names fixtures (next result) indentLvl before text after result') :
    Emits names fixtures (act >>= next) indentLvl before text after result' :=
  (here.bind there).congr (String.empty_append ..)

theorem indented {body : Synth Unit} (room : indentLvl < sizeMax)
    (inside : Emits names fixtures body (indentLvl + 1) before text after ()) :
    Emits names fixtures (do indentCppFile; body; dedentCppFile) indentLvl before text after () := by
  intro context serves counted
  have deeper : { context with cppFileIndentLvl := indentLvl + 1 }.Serves names fixtures (indentLvl + 1) :=
    ⟨serves.typeCls, serves.typeClass, serves.proofMethod, serves.typeCmpMethod,
      serves.setupMethod, serves.teardownMethod, rfl⟩
  have below : context.cppFileIndentLvl < sizeMax := by rw [serves.indentLvl]; exact room
  have entered := indentCppFile_run below
  rw [serves.indentLvl] at entered
  rw [run_bind_of_ok entered, run_bind_of_ok (inside _ deeper counted),
    dedentCppFile_run (Nat.le_add_left ..)]
  simp only [SynthesisContext.extend, Nat.add_sub_cancel, ← serves.indentLvl]

theorem indented_bind {body : Synth Unit} {next : Unit → Synth β} {result : β}
    (room : indentLvl < sizeMax)
    (inside : Emits names fixtures body (indentLvl + 1) before first middle ())
    (there : Emits names fixtures (next ()) indentLvl middle second after result) :
    Emits names fixtures (do indentCppFile; body; let answer ← dedentCppFile; next answer) indentLvl
      before (first ++ second) after result := by
  have whole : Emits names fixtures ((do indentCppFile; body; dedentCppFile) >>= next) indentLvl before
      (first ++ second) after result := (indented room inside).bind there
  simpa only [bind_assoc] using whole

end Emits

/-! ## The premises -/

section Premises

variable (opts : Options) (names : Names) (fixtures : Prop) {indentLvl : Nat}

theorem emits_errorHandling (numbering : Numbering) :
    Emits names fixtures renderErrorHandling indentLvl numbering
      (Stmt.renderList names indentLvl errorHandling) numbering () := by
  refine ((Emits.envDefnAt fun _ serves => serves.typeClass).silently <|
    Emits.line _ <| Emits.indentation.bind <| Emits.writeCpp _).congr ?_
  have zero : toString (0 : Nat) = "0" := rfl
  simp only [errorHandling, Stmt.renderList, Stmt.render, zero, String.append_assoc,
    String.append_empty]

/-- The emitted `if`, for operands and a functor whose text is at hand. -/
theorem emits_comparison (comparison : Comparison) (room : indentLvl < sizeMax)
    (numbering : Numbering) :
    Emits names fixtures
      (renderComparison names.typeCmpMethod comparison.lhs.render comparison.rhs.render
        (comparison.functor names))
      indentLvl numbering (Stmt.render names indentLvl (.ifNot comparison errorHandling))
      numbering () := by
  refine (Emits.line _ <| (Emits.indented room (emits_errorHandling names fixtures numbering)).bind <|
    Emits.indentation.bind <| Emits.writeCpp _).congr ?_
  simp only [Stmt.render, Comparison.render, String.append_assoc]

theorem emits_annotationLines (numbering : Numbering) :
    Emits names fixtures (renderInferencePremiseAnnotationComment opts) indentLvl numbering
      (Stmt.renderList names indentLvl (annotationLines opts numbering)) numbering () := by
  rw [renderInferencePremiseAnnotationComment, annotationLines]
  cases opts.suppressAnnotationComments with
  | true => exact Emits.pure ()
  | false =>
      have comment : Emits names fixtures
          (do writeCpp (premiseComment ((← get).numPremisesProcessed + 1)); writeCpp "\n") indentLvl
          numbering (premiseComment (numbering.numPremisesProcessed + 1) ++ "\n") numbering () :=
        Emits.get_bind fun context _ counted =>
          counted ▸ (Emits.writeCpp _).bind (Emits.writeCpp _)
      refine (Emits.indentation.bind comment).congr ?_
      simp [Stmt.renderList, Stmt.render, String.append_assoc]

theorem emits_fixture (source : ASTIdentifiable) (target : ASTDeductionTarget)
    (methodName : StringType) (numbering : Numbering) :
    Emits names fixtures (renderTypeAnnotationSetupTeardownFixture source target methodName)
      indentLvl numbering
      (renderIndentation indentLvl ++ methodName ++ "(" ++ synthesizeIdentifiable source ++ ", " ++
        (targetExpr target).render ++ ");\n") numbering () := by
  have call : Emits names fixtures
      (do writeCpp (methodName ++ "(" ++ synthesizeIdentifiable source ++ ", " ++
        synthesizeDeductionTarget (← get).typeCls target .asSingular ++ ");\n")) indentLvl numbering
      (methodName ++ "(" ++ synthesizeIdentifiable source ++ ", " ++ (targetExpr target).render ++
        ");\n") numbering () :=
    Emits.get_bind fun context _ _ => by
      rw [← render_targetExpr]
      exact Emits.writeCpp _
  exact (Emits.indentation.bind call).congr (by simp only [String.append_assoc])

theorem emits_getNextVarName (nameId num : UInt32) :
    Emits names fixtures getNextVarName indentLvl ⟨nameId, num⟩ "" ⟨nameId + 1, num⟩
      (varName nameId) := by
  rintro context _ counted
  obtain rfl : context.nameId = nameId := congrArg Numbering.nameId counted
  obtain rfl : context.numPremisesProcessed = num := congrArg Numbering.numPremisesProcessed counted
  simp only [SynthesisContext.extend, OfStream.write, String.append_empty]
  rfl

theorem emits_plainPremise (source : ASTIdentifiable) (target : ASTDeductionTarget)
    (room : indentLvl < sizeMax) (nameId num : UInt32) :
    Emits names fixtures (synthesizeInferencePremiseDefnWithoutWhileClause source target) indentLvl
      ⟨nameId, num⟩ (Stmt.renderList names indentLvl (plainPremiseStmts nameId source target))
      ⟨if target.isComputed then nameId + 1 + 1 else nameId, num⟩ () := by
  refine (Emits.envDefnAt fun _ serves => serves.proofMethod).silently <|
    Emits.get_bind fun context serves _ => ?_
  rw [serves.typeCls]
  cases target with
  | singular name =>
      have declaration : synthesizeDeductionTargetForDeclaration names.typeCls (.singular name) =
          .ok (names.typeCls ++ " " ++ name) := rfl
      refine (Emits.indentation.bind <| (Emits.lift declaration).silently <|
        (Emits.writeCpp _).bind <| (Emits.writeCpp _).bind <| Emits.writeCpp _).congr ?_
      simp only [plainPremiseStmts, Stmt.renderList, Stmt.render, DeclType.render, Init.render,
        String.append_assoc, String.append_empty]
  | array name size =>
      have declaration : synthesizeDeductionTargetForDeclaration names.typeCls (.array name size) =
          .ok ("std::vector<" ++ names.typeCls ++ ">" ++ " " ++ name) := by cases size <;> rfl
      refine (Emits.indentation.bind <| (Emits.lift declaration).silently <|
        (Emits.writeCpp _).bind <| (Emits.writeCpp _).bind <| Emits.writeCpp _).congr ?_
      simp only [plainPremiseStmts, Stmt.renderList, Stmt.render, DeclType.render, Init.render,
        String.append_assoc, String.append_empty]
  | computed name arguments =>
      have comparison := emits_comparison names fixtures
        ⟨⟨.ident (varName nameId), none⟩, ⟨.ident (varName (nameId + 1)), none⟩, none⟩ room
        ⟨nameId + 1 + 1, num⟩
      refine ((Emits.envDefnAt fun _ serves => serves.typeCmpMethod).silently <|
        (emits_getNextVarName names fixtures nameId num).bind <| Emits.line _ <|
        (emits_getNextVarName names fixtures (nameId + 1) num).bind <| Emits.line _ <|
        comparison.bind <| Emits.writeCpp _).congr ?_
      rw [← render_targetExpr]
      simp only [plainPremiseStmts, Stmt.renderList, Stmt.render, DeclType.render, Init.render,
        String.append_assoc, String.append_empty, String.empty_append]

theorem emits_whilePremise (source : ASTIdentifiable) (target : ASTDeductionTarget)
    {body : Synth Unit} {text : String} {before after : Numbering} (present : fixtures)
    (inside : Emits names fixtures body indentLvl before text after ()) :
    Emits names fixtures (synthesizeInferencePremiseDefnWithWhileClause source target body) indentLvl
      before (Stmt.renderList names indentLvl (setupStmts source target) ++ text ++
        Stmt.renderList names indentLvl (teardownStmts source target)) after () := by
  refine ((Emits.writeCpp _).bind <|
    (Emits.envDefnAt fun _ serves => serves.setupMethod present).silently <| Emits.line _ <|
    (emits_fixture names fixtures source target _ _).bind <| (Emits.writeCpp _).bind <|
    inside.bind <| (Emits.envDefnAt fun _ serves => serves.teardownMethod present).silently <|
    Emits.line _ <| (emits_fixture names fixtures source target _ _).bind <|
    Emits.writeCpp _).congr ?_
  simp only [setupStmts, teardownStmts, Stmt.renderList, Stmt.render, String.append_assoc,
    String.append_empty]

theorem emits_equality (defn : ASTInferenceEqualityDefn) (room : indentLvl + 1 < sizeMax)
    (numbering : Numbering) :
    Emits names fixtures (previsitInferenceEqualityDefn defn) indentLvl numbering
      (Stmt.renderList names indentLvl (equalityStmts defn)) numbering true := by
  refine (Emits.envDefnAt fun _ serves => serves.typeCmpMethod).silently <|
    Emits.get_bind fun context serves _ => ?_
  simp only [serves.typeCls, ← render_targetExpr, equalityStmts]
  cases defn.rangeClause with
  | none =>
      have comparison := emits_comparison names fixtures
        ⟨⟨targetExpr defn.lhs, none⟩, ⟨targetExpr defn.rhs, none⟩, some defn.oprt⟩
        (Nat.lt_of_succ_lt room) numbering
      exact (comparison.bind <| Emits.pure true).congr (by simp only [Stmt.renderList])
  | some rangeClause =>
      have comparison := emits_comparison names fixtures
        ⟨⟨targetExpr defn.lhs, some "i"⟩, ⟨targetExpr defn.rhs, some "j"⟩, some defn.oprt⟩ room numbering
      refine (Emits.line _ <| Emits.indented_bind (Nat.lt_of_succ_lt room) comparison <|
        Emits.line _ <| Emits.pure true).congr ?_
      simp only [Stmt.renderList, Stmt.render, String.append_assoc, String.append_empty]

theorem emits_postvisit (defn : ASTInferencePremiseDefn) (numbering : Numbering) :
    Emits names fixtures (postvisitInferencePremiseDefn defn) indentLvl numbering ""
      ⟨numbering.nameId, numbering.numPremisesProcessed + 1⟩ true := by
  rintro context _ rfl
  simp only [SynthesisContext.extend, OfStream.write, String.append_empty]
  rfl

mutual
/-- A visit writes the premise's statements and counts as `advance` does. -/
theorem emits_premise (room : indentLvl + 1 < sizeMax) (premise : ASTPremiseDefn)
    (covered : premise.hasWhileClause = true → fixtures) (numbering : Numbering) :
    Emits names fixtures (visitNestedPremiseDefn opts premise) indentLvl numbering
      (Stmt.renderList names indentLvl (premiseStmts opts premise numbering))
      (advance premise numbering) true := by
  match premise with
  | .inferencePremise ⟨source, target, none⟩ =>
      have plain := emits_plainPremise names fixtures source target (Nat.lt_of_succ_lt room)
        numbering.nameId numbering.numPremisesProcessed
      have previsit : Emits names fixtures
          (previsitInferencePremiseDefn opts ⟨source, target, none⟩) indentLvl numbering _ _ true :=
        (emits_annotationLines opts names fixtures numbering).bind (plain.bind (Emits.pure true))
      refine (previsit.bind (emits_postvisit names fixtures ⟨source, target, none⟩ _)).congr ?_
      simp only [premiseStmts, Stmt.renderList_append, String.append_empty]
  | .inferencePremise ⟨source, target, some body⟩ =>
      have present : fixtures := covered rfl
      have fixture := emits_whilePremise names fixtures source target present
        (emits_whileClause room body (fun _ _ _ => present) numbering)
      have previsit : Emits names fixtures
          (previsitInferencePremiseDefn opts ⟨source, target, some body⟩) indentLvl numbering _ _ true :=
        (emits_annotationLines opts names fixtures numbering).bind (fixture.bind (Emits.pure true))
      refine (previsit.bind (emits_postvisit names fixtures ⟨source, target, some body⟩ _)).congr ?_
      simp only [premiseStmts, Stmt.renderList_append, String.append_empty, String.append_assoc]
  | .inferenceEquality defn => exact emits_equality names fixtures defn room numbering

theorem emits_whileClause (room : indentLvl + 1 < sizeMax) (premises : List ASTPremiseDefn)
    (covered : ∀ premise ∈ premises, premise.hasWhileClause = true → fixtures)
    (numbering : Numbering) :
    Emits names fixtures (visitWhileClause opts premises) indentLvl numbering
      (Stmt.renderList names indentLvl (premiseListStmts opts premises numbering))
      (advanceList premises numbering) () := by
  match premises with
  | [] => exact Emits.pure ()
  | head :: tail =>
      refine ((emits_premise room head (covered head (by simp)) numbering).bind
        (emits_whileClause room tail
          (fun premise member => covered premise (List.mem_cons_of_mem _ member))
          (advance head numbering))).congr ?_
      simp only [premiseListStmts, Stmt.renderList_append]
end

/-- The walk over the premises of a definition. -/
theorem emits_premises (room : indentLvl + 1 < sizeMax) (premises : List ASTPremiseDefn)
    (covered : ∀ premise ∈ premises, premise.hasWhileClause = true → fixtures)
    (numbering : Numbering) :
    Emits names fixtures (ASTVisitor.visitAll (visitNestedPremiseDefn opts) premises) indentLvl
      numbering (Stmt.renderList names indentLvl (premiseListStmts opts premises numbering))
      (advanceList premises numbering) true := by
  induction premises generalizing numbering with
  | nil => exact Emits.pure true
  | cons head tail ih =>
      refine ((emits_premise opts names fixtures room head (covered head (by simp)) numbering).bind
        (ih (fun premise member => covered premise (List.mem_cons_of_mem _ member))
          (advance head numbering))).congr ?_
      simp only [premiseListStmts, Stmt.renderList_append]

theorem emits_proposition (defn : ASTPropositionDefn) (numbering : Numbering) :
    Emits names fixtures (previsitPropositionDefn defn) indentLvl numbering
      (Stmt.render names indentLvl (.returnValue (propositionExpr defn.target))) numbering true := by
  have line : Emits names fixtures
      (do
        writeCpp ("return " ++ synthesizeDeductionTarget (← get).typeCls defn.target .asArray ++ ";\n")
        return true) indentLvl numbering
      ("return " ++ (propositionExpr defn.target).render ++ ";\n") numbering true :=
    Emits.get_bind fun context _ _ => by
      rw [← render_propositionExpr]
      exact ((Emits.writeCpp _).bind (Emits.pure true)).congr (String.append_empty ..)
  exact (Emits.indentation.bind line).congr (by simp only [Stmt.render, String.append_assoc])

end Premises

/-! ## Inference definitions -/

section Definitions

variable (opts : Options) (opens : String → Bool) {names : Names} {fixtures : Prop}
  {context : SynthesisContext}

theorem previsitInferenceDefn_run (defn : ASTInferenceDefn)
    (header : context.headerFileIndentLvl = 0) (cpp : context.cppFileIndentLvl = 0) :
    (previsitInferenceDefn opts defn).run context = .ok (true, { context with
      headerFileOfs := context.headerFileOfs.write (declarationText opts context.typeCls defn)
      cppFileOfs := context.cppFileOfs.write
        ("\n" ++ (renderInferenceDefinitionMethodAnnotationComment opts defn.name 0 ++
          signatureText opts context.typeCls context.clsName defn))
      cppFileIndentLvl := 1 }) := by
  obtain ⟨clsName, typeCls, env, hofs, cofs, hl, cl, id, num, inc, files, errs⟩ := context
  obtain rfl : hl = 0 := header
  obtain rfl : cl = 0 := cpp
  simp only [declarationText, ← OfStream.write_write]
  rfl

theorem visitInferenceDefn_eq (defn : ASTInferenceDefn) :
    (visitor opts opens).visitInferenceDefn defn = ASTVisitor.verify (previsitInferenceDefn opts defn)
      (ASTVisitor.verify (ASTVisitor.visitAll (visitNestedPremiseDefn opts) defn.premiseDefns)
        (ASTVisitor.verify (previsitPropositionDefn defn.propositionDefn)
          (postvisitInferenceDefn defn))) := by
  have decl : ∀ decl, (visitor opts opens).visitGlobalDecl decl = pure true := fun _ => by
    simp [ASTVisitor.visitGlobalDecl, visitor]
  have argument : ∀ argument, (visitor opts opens).visitInferenceArgument argument = pure true :=
    fun _ => by simp [ASTVisitor.visitInferenceArgument, visitor]
  have proposition : (visitor opts opens).visitPropositionDefn defn.propositionDefn =
      previsitPropositionDefn defn.propositionDefn := by
    simp only [ASTVisitor.visitPropositionDefn, visitDeductionTarget_eq, ASTVisitor.verify_pure_true,
      ASTVisitor.verify_then_true]
    exact ASTVisitor.verify_then_true _
  rw [ASTVisitor.visitInferenceDefn, ASTVisitor.visitAll_pure_true _ _ fun decl' _ => decl decl',
    ASTVisitor.visitAll_pure_true _ _ fun argument' _ => argument argument', visitPremiseDefn_eq,
    proposition]
  simp only [ASTVisitor.verify_pure_true, ASTVisitor.verify_then_true]
  rfl

/-- Visiting an inference definition declares its function in the header file
and defines it in the .cpp file. -/
theorem visitInferenceDefn_run (defn : ASTInferenceDefn) (serves : context.Serves names fixtures 0)
    (header : context.headerFileIndentLvl = 0) (fresh : context.numPremisesProcessed = 0)
    (covered : ∀ premise ∈ defn.premiseDefns, premise.hasWhileClause = true → fixtures) :
    ((visitor opts opens).visitInferenceDefn defn).run context = .ok (true, { context with
      headerFileOfs := context.headerFileOfs.write (declarationText opts names.typeCls defn)
      cppFileOfs := context.cppFileOfs.write
        (definitionText opts names context.clsName defn context.nameId)
      nameId := nameIdAfter defn context.nameId }) := by
  have room : 1 + 1 < sizeMax := by decide
  have entered := previsitInferenceDefn_run opts defn header serves.indentLvl
  let inside : SynthesisContext := { context with
    headerFileOfs := context.headerFileOfs.write (declarationText opts context.typeCls defn)
    cppFileOfs := context.cppFileOfs.write
      ("\n" ++ (renderInferenceDefinitionMethodAnnotationComment opts defn.name 0 ++
        signatureText opts context.typeCls context.clsName defn))
    cppFileIndentLvl := 1 }
  have insideServes : inside.Serves names fixtures 1 :=
    ⟨serves.typeCls, serves.typeClass, serves.proofMethod, serves.typeCmpMethod,
      serves.setupMethod, serves.teardownMethod, rfl⟩
  have counted : inside.numbering = ⟨context.nameId, 0⟩ := by
    simp only [inside, SynthesisContext.numbering, fresh]
  have premises := emits_premises opts names fixtures room defn.premiseDefns covered
    ⟨context.nameId, 0⟩ inside insideServes counted
  let text := Stmt.renderList names 1 (premiseListStmts opts defn.premiseDefns ⟨context.nameId, 0⟩)
  let last := advanceList defn.premiseDefns ⟨context.nameId, 0⟩
  have returned := emits_proposition names fixtures defn.propositionDefn last (inside.extend text last)
    (insideServes.extend text last) (SynthesisContext.extend_numbering ..)
  rw [visitInferenceDefn_eq, run_verify_of_ok entered, run_verify_of_ok premises,
    run_verify_of_ok returned, postvisitInferenceDefn,
    run_bind_of_ok (dedentCppFile_run (Nat.le_refl 1))]
  have closed : definitionText opts names context.clsName defn context.nameId =
      "\n" ++ (renderInferenceDefinitionMethodAnnotationComment opts defn.name 0 ++
        signatureText opts context.typeCls context.clsName defn) ++ text ++
        Stmt.render names 1 (.returnValue (propositionExpr defn.propositionDefn.target)) ++ "\x7d\n" := by
    simp only [definitionText, bodyStmts, Stmt.renderList_append, Stmt.renderList, text,
      String.append_assoc, String.append_empty, serves.typeCls]
  rw [closed, ← OfStream.write_write, ← OfStream.write_write, ← OfStream.write_write,
    ← serves.typeCls]
  obtain ⟨clsName, typeCls, env, hofs, cofs, hl, cl, id, num, inc, files, errs⟩ := context
  obtain rfl : num = 0 := fresh
  obtain rfl : cl = 0 := serves.indentLvl
  rfl

end Definitions

end Synthesizer

end Snowlake
