import Snowlake.Parse.RoundTrip
import Snowlake.Parse.Spelling
import Snowlake.Synth.Completion
import Snowlake.Synth.Derivation

/-! # Which bodies are C++

The header of the loop for a range clause writes the type of its counters
twice, which no declaration of C++ does.  Without range clauses a body is a
sequence of statements as far as its names are: Snowlake knows none of the
keywords of C++.
-/

namespace Snowlake

open Emitted

/-! ## What is asked of a definition -/

namespace ASTDeductionTarget

variable (demand : Demand)

mutual
def Meets : ASTDeductionTarget → Prop
  | .singular name | .array name _ => demand.object name
  | .computed name arguments => demand.callable name ∧ MeetsList arguments

def MeetsList : List ASTDeductionTarget → Prop
  | [] => True
  | target :: targets => Meets target ∧ MeetsList targets
end

variable {demand}

mutual
theorem meets_of_words {target : ASTDeductionTarget}
    (meets : ∀ name ∈ target.words, demand.object name ∧ demand.callable name) :
    target.Meets demand := by
  cases target with
  | singular name | array name => exact (meets name (by simp [words])).1
  | computed name arguments =>
      exact ⟨(meets name (by simp [words])).2, meetsList_of_words fun other member =>
        meets other (by simp [words, member])⟩

theorem meetsList_of_words {targets : List ASTDeductionTarget}
    (meets : ∀ name ∈ wordsOfList targets, demand.object name ∧ demand.callable name) :
    MeetsList demand targets := by
  cases targets with
  | nil => trivial
  | cons target targets =>
      exact ⟨meets_of_words fun name member => meets name (by simp [wordsOfList, member]),
        meetsList_of_words fun name member => meets name (by simp [wordsOfList, member])⟩
end

end ASTDeductionTarget

/-- What is asked of a premise, but for what its while clause nests. -/
def ASTPremiseDefn.Meets (demand : Demand) (names : Names) : ASTPremiseDefn → Prop
  | .inferencePremise ⟨source, target, none⟩ =>
      demand.callable names.typeCls ∧ demand.callable names.proofMethod ∧ demand.source source ∧
        target.Meets demand ∧ (target.isComputed = true → demand.callable names.typeCmpMethod)
  | .inferencePremise ⟨source, target, some _⟩ =>
      demand.callable names.setupMethod ∧ demand.callable names.teardownMethod ∧
        demand.source source ∧ target.Meets demand
  | .inferenceEquality defn =>
      demand.callable names.typeCls ∧ demand.callable names.typeCmpMethod ∧
        defn.lhs.Meets demand ∧ defn.rhs.Meets demand ∧
        ∀ range ∈ defn.rangeClause, demand.loop ∧ range.deductionTarget.Meets demand

structure ASTInferenceDefn.Meets (demand : Demand) (names : Names) (defn : ASTInferenceDefn) : Prop where
  premises : ∀ premise ∈ defn.allPremises, premise.Meets demand names
  proposition : defn.propositionDefn.target.Meets demand

namespace Synthesizer

/-- What the synthesizer writes on its own is as is asked. -/
structure OwnMeet (demand : Demand) : Prop where
  temporary : ∀ nameId, demand.object (varName nameId)
  counterI : demand.object "i"
  counterJ : demand.object "j"
  premiseComment : ∀ nth, demand.comment (premiseComment nth)
  setupComment : demand.comment setupComment
  teardownComment : demand.comment teardownComment

section Statements

variable {demand : Demand} {names : Names}

mutual
theorem meets_targetExpr {target : ASTDeductionTarget} :
    (targetExpr target).Meets demand ↔ target.Meets demand := by
  cases target with
  | singular | array => exact Iff.rfl
  | computed name arguments => exact and_congr_right fun _ => meetsList_targetExprs

theorem meetsList_targetExprs {targets : List ASTDeductionTarget} :
    Expr.MeetsList demand (targetExprs targets) ↔ ASTDeductionTarget.MeetsList demand targets := by
  cases targets with
  | nil => exact Iff.rfl
  | cons target targets => exact and_congr meets_targetExpr meetsList_targetExprs
end

theorem meets_propositionExpr {target : ASTDeductionTarget} :
    (propositionExpr target).Meets demand ↔ target.Meets demand := by
  cases target with
  | singular => exact Iff.rfl
  | array _ size => cases size <;> exact Iff.rfl
  | computed name arguments => exact and_congr_right fun _ => meetsList_targetExprs

theorem meetsList_append {first second : List Stmt} :
    Stmt.MeetsList demand names (first ++ second) ↔
      Stmt.MeetsList demand names first ∧ Stmt.MeetsList demand names second := by
  induction first with
  | nil => simp [Stmt.MeetsList]
  | cons head tail ih => simp only [List.cons_append, Stmt.MeetsList, ih, and_assoc]

theorem meetsList_errorHandling :
    Stmt.MeetsList demand names errorHandling ↔ demand.callable names.typeCls := by
  simp [errorHandling, Stmt.MeetsList, Stmt.Meets]

variable (opts : Options)

theorem meetsList_annotationLines (own : OwnMeet demand) (numbering : Numbering) :
    Stmt.MeetsList demand names (annotationLines opts numbering) := by
  rw [annotationLines]
  split
  · trivial
  · exact ⟨own.premiseComment _, trivial⟩

theorem meetsList_plainPremiseStmts (own : OwnMeet demand) (nameId : UInt32) (source : ASTIdentifiable)
    (target : ASTDeductionTarget) :
    Stmt.MeetsList demand names (plainPremiseStmts nameId source target) ↔
      ASTPremiseDefn.Meets demand names (.inferencePremise ⟨source, target, none⟩) := by
  cases target with
  | singular | array =>
      simp only [plainPremiseStmts, Stmt.MeetsList, Stmt.Meets, Init.Meets, ASTPremiseDefn.Meets,
        ASTDeductionTarget.Meets, ASTDeductionTarget.isComputed, and_true, Bool.false_eq_true,
        false_implies]
      tauto
  | computed name arguments =>
      simp only [plainPremiseStmts, Stmt.MeetsList, Stmt.Meets, Init.Meets, Comparison.meets_iff,
        Operand.Meets, Expr.Meets, meets_targetExpr, meetsList_errorHandling, own.temporary,
        ASTPremiseDefn.Meets, ASTDeductionTarget.isComputed, Option.mem_def, reduceCtorEq,
        Option.isSome_none, Bool.false_eq_true, false_implies, implies_true, and_true, true_and]
      tauto

theorem meetsList_fixtureStmts (own : OwnMeet demand) (source : ASTIdentifiable) (target : ASTDeductionTarget)
    (body : List ASTPremiseDefn) :
    Stmt.MeetsList demand names (setupStmts source target) ∧
        Stmt.MeetsList demand names (teardownStmts source target) ↔
      ASTPremiseDefn.Meets demand names (.inferencePremise ⟨source, target, some body⟩) := by
  simp only [setupStmts, teardownStmts, Stmt.MeetsList, Stmt.Meets, own.setupComment,
    own.teardownComment, meets_targetExpr, ASTPremiseDefn.Meets, and_true, true_and]
  tauto

theorem meetsList_equalityStmts (own : OwnMeet demand) (defn : ASTInferenceEqualityDefn) :
    Stmt.MeetsList demand names (equalityStmts defn) ↔
      ASTPremiseDefn.Meets demand names (.inferenceEquality defn) := by
  obtain ⟨lhs, rhs, oprt, rangeClause⟩ := defn
  cases rangeClause with
  | none =>
      simp only [equalityStmts, Stmt.MeetsList, Stmt.Meets, Comparison.meets_iff, Operand.Meets,
        meets_targetExpr, meetsList_errorHandling, ASTPremiseDefn.Meets, Option.mem_def, reduceCtorEq,
        Option.isSome_some, false_implies, implies_true, forall_true_left, and_true]
      tauto
  | some range =>
      simp only [equalityStmts, Stmt.MeetsList, Stmt.Meets, Comparison.meets_iff, Operand.Meets,
        meets_targetExpr, meetsList_errorHandling, ASTPremiseDefn.Meets, Option.mem_def,
        Option.some.injEq, Option.isSome_some, forall_true_left, forall_eq', own.counterI, own.counterJ,
        and_true]
      tauto

mutual
theorem meetsList_premiseStmts (own : OwnMeet demand) (premise : ASTPremiseDefn) (numbering : Numbering) :
    Stmt.MeetsList demand names (premiseStmts opts premise numbering) ↔
      ∀ nested ∈ premise.documentOrder, nested.Meets demand names := by
  match premise with
  | .inferencePremise ⟨source, target, none⟩ =>
      simp only [premiseStmts, meetsList_append, meetsList_annotationLines opts own, true_and,
        meetsList_plainPremiseStmts own, ASTPremiseDefn.documentOrder, List.mem_singleton, forall_eq]
  | .inferencePremise ⟨source, target, some body⟩ =>
      simp only [premiseStmts, meetsList_append, meetsList_annotationLines opts own, true_and,
        ASTPremiseDefn.documentOrder, List.forall_mem_cons, ← meetsList_fixtureStmts own,
        meetsList_premiseListStmts own body numbering]
      tauto
  | .inferenceEquality defn =>
      simp only [premiseStmts, meetsList_equalityStmts own, ASTPremiseDefn.documentOrder,
        List.mem_singleton, forall_eq]

theorem meetsList_premiseListStmts (own : OwnMeet demand) (premises : List ASTPremiseDefn) (numbering : Numbering) :
    Stmt.MeetsList demand names (premiseListStmts opts premises numbering) ↔
      ∀ nested ∈ ASTPremiseDefn.documentOrderList premises, nested.Meets demand names := by
  match premises with
  | [] => simp [premiseListStmts, Stmt.MeetsList, ASTPremiseDefn.documentOrderList]
  | head :: tail =>
      simp only [premiseListStmts, meetsList_append, ASTPremiseDefn.documentOrderList,
        List.forall_mem_append, meetsList_premiseStmts own head numbering,
        meetsList_premiseListStmts own tail (advance head numbering)]
end

/-- The statements of a body meet a demand exactly if its definition does. -/
theorem meetsList_bodyStmts_iff (own : OwnMeet demand) (defn : ASTInferenceDefn) (nameId : UInt32) :
    Stmt.MeetsList demand names (bodyStmts opts defn nameId) ↔ defn.Meets demand names := by
  simp only [bodyStmts, meetsList_append, meetsList_premiseListStmts opts own, Stmt.MeetsList, Stmt.Meets,
    meets_propositionExpr, and_true]
  exact ⟨fun meets => ⟨meets.1, meets.2⟩, fun meets => ⟨meets.premises, meets.proposition⟩⟩

end Statements

/-! ## What the synthesizer writes on its own -/

theorem word_varName (nameId : UInt32) : MaximalMunch.Matches Cpp.wordPattern (varName nameId).toList := by
  simp only [varName, String.toList_append, String.reduceToList, List.cons_append, List.nil_append]
  refine MaximalMunch.matches_run_cons_iff.mpr ⟨rfl, ?_⟩
  simp only [List.forall_mem_cons]
  refine ⟨rfl, rfl, fun c member => ?_⟩
  rw [Nat.toString_eq_repr, Nat.toList_repr] at member
  have digit : Cpp.isDigit c = true := Lexer.isDigit_of_mem_toDigits member
  exact Cpp.isWordChar_of_isDigit digit

theorem isCppIdentifier_varName (nameId : UInt32) : IsCppIdentifier (varName nameId) := by
  have starts : (varName nameId).toList.take 3 = ['v', 'a', 'r'] := by
    simp [varName, String.toList_append]
  have noKeyword : ∀ keyword ∈ "if".toList :: "for".toList :: "return".toList ::
      (Cpp.typeKeywords ++ Cpp.otherKeywords), keyword.take 3 ≠ ['v', 'a', 'r'] := by decide
  have fresh : ∀ keyword ∈ "if".toList :: "for".toList :: "return".toList ::
      (Cpp.typeKeywords ++ Cpp.otherKeywords), (varName nameId).toList ≠ keyword := by
    intro keyword member same
    exact noKeyword keyword member (same ▸ starts)
  simp only [List.forall_mem_cons, List.forall_mem_append] at fresh
  obtain ⟨noIf, noFor, noReturn, noType, noOther⟩ := fresh
  rw [IsCppIdentifier, wordToken, Cpp.classify, if_neg noIf, if_neg noFor, if_neg noReturn,
    if_neg fun member => noType _ member rfl, if_neg fun member => noOther _ member rfl]

theorem oneLine_ordinal (nth : UInt32) : '\n' ∉ (ordinal nth).toList := by
  rw [ordinal, String.toList_append, List.mem_append, Nat.toString_eq_repr, Nat.toList_repr]
  rintro (inDigits | inSuffix)
  · have digit := Lexer.isDigit_of_mem_toDigits inDigits
    cases digit
  · split_ifs at inSuffix <;> simp at inSuffix

theorem own_spelled : OwnMeet spelled where
  temporary := word_varName
  counterI := (MaximalMunch.accepts_iff ..).mp (by decide)
  counterJ := (MaximalMunch.accepts_iff ..).mp (by decide)
  premiseComment nth := by
    refine ⟨' ' :: (snprintf 1024 ("This corresponds to the " ++ ordinal nth ++
      " premise rule in the inference definition.")).toList, ?_, ?_⟩
    · simp only [premiseComment, String.toList_append, String.reduceToList, List.cons_append,
        List.nil_append]
    · rw [snprintf, String.toList_ofList]
      simp only [List.mem_cons, not_or]
      refine ⟨by decide, fun member => ?_⟩
      have inText := List.mem_of_mem_take member
      simp only [String.toList_append, List.mem_append, oneLine_ordinal nth, or_false] at inText
      simp at inText
  setupComment := ⟨" Type annotation setup.".toList, rfl, by simp⟩
  teardownComment := ⟨" Type annotation teardown.".toList, rfl, by simp⟩

theorem own_grammatical : OwnMeet grammatical where
  temporary := isCppIdentifier_varName
  counterI := (by decide : wordToken "i" = .identifier)
  counterJ := (by decide : wordToken "j" = .identifier)
  premiseComment _ := trivial
  setupComment := trivial
  teardownComment := trivial

/-! ## The text of a body -/

def bodyText (opts : Options) (names : Names) (defn : ASTInferenceDefn) (nameId : UInt32) : String :=
  Stmt.renderList names 1 (bodyStmts opts defn nameId)

/-- It stands between the braces of the function. -/
theorem definitionText_eq (opts : Options) (names : Names) (clsName : StringType)
    (defn : ASTInferenceDefn) (nameId : UInt32) :
    definitionText opts names clsName defn nameId =
      "\n" ++ (renderInferenceDefinitionMethodAnnotationComment opts defn.name 0 ++
        (signatureText opts names.typeCls clsName defn ++
          (bodyText opts names defn nameId ++ "\x7d\n"))) := rfl

theorem bodyText_iff (opts : Options) {names : Names} {defn : ASTInferenceDefn}
    (isSpelled : defn.Meets spelled names) (nameId : UInt32) :
    Cpp.Statements (Cpp.lex (bodyText opts names defn nameId).toList) ↔
      defn.Meets grammatical names := by
  have spelledStmts := (meetsList_bodyStmts_iff opts own_spelled defn nameId).mpr isSpelled
  have read := lex_stmts spelledStmts 1 []
  rw [List.append_nil] at read
  have nothing : Cpp.lex [] = [] := by
    rw [Cpp.lex, MaximalMunch.scan]
    rfl
  rw [bodyText, read, nothing, List.append_nil, statements_tokensList_iff spelledStmts,
    meetsList_bodyStmts_iff opts own_grammatical]

/-! ## Bodies of parsed modules -/

/-- What visiting an inference definition does between its own hooks. -/
def writeBody (opts : Options) (defn : ASTInferenceDefn) : Synth Bool :=
  ASTVisitor.verify (ASTVisitor.visitAll (visitNestedPremiseDefn opts) defn.premiseDefns)
    (previsitPropositionDefn defn.propositionDefn)

/-- The context in which the hooks of a group write the body of a function. -/
structure AtWork (group : ASTInferenceGroup) (context : SynthesisContext) : Prop where
  typeCls : context.typeCls = group.names.typeCls
  envDefnMap : context.envDefnMap = group.envDefnMap
  cppFileIndentLvl : context.cppFileIndentLvl = 1
  numPremisesProcessed : context.numPremisesProcessed = 0

/-- The visitor writes the body of a definition in such a context: between the
definitions of an open group only the streams and the counter of the temporaries
differ from its start. -/
def VisitsBody (opts : Options) (group : ASTInferenceGroup) (defn : ASTInferenceDefn) : Prop :=
  ∀ (opens : String → Bool) (idle : SynthesisContext) (headerFileOfs cppFileOfs : OfStream) (nameId : UInt32),
    idle.Idle → ∃ entered, AtWork group entered ∧
      ((visitor opts opens).visitInferenceDefn defn).run { openGroup opts idle group with
          headerFileOfs := headerFileOfs, cppFileOfs := cppFileOfs, nameId := nameId } =
        (ASTVisitor.verify (writeBody opts defn) (postvisitInferenceDefn defn)).run entered

theorem visitsBody (opts : Options) (group : ASTInferenceGroup) (defn : ASTInferenceDefn) :
    VisitsBody opts group defn := by
  intro opens idle headerFileOfs cppFileOfs nameId isIdle
  obtain ⟨entered, ran, atWork⟩ : ∃ entered, (previsitInferenceDefn opts defn).run
      { openGroup opts idle group with
        headerFileOfs := headerFileOfs, cppFileOfs := cppFileOfs, nameId := nameId } =
      .ok (true, entered) ∧ AtWork group entered :=
    ⟨_, previsitInferenceDefn_run opts defn isIdle.headerFileIndentLvl isIdle.cppFileIndentLvl,
      rfl, rfl, rfl, isIdle.numPremisesProcessed⟩
  refine ⟨entered, atWork, ?_⟩
  rw [visitInferenceDefn_eq, run_verify_of_ok ran, writeBody, ASTVisitor.verify_verify]

section Body

variable (opts : Options) {group : ASTInferenceGroup} {strict : Bool} {context : SynthesisContext}

theorem writeBody_run (wellFormed : group.WellFormed strict) (atWork : AtWork group context)
    {defn : ASTInferenceDefn}
    (covered : ∀ premise ∈ defn.premiseDefns, premise.hasWhileClause = true → group.DefinesFixtures) :
    (writeBody opts defn).run context = .ok (true, context.extend
      (bodyText opts group.names defn context.nameId)
      (advanceList defn.premiseDefns ⟨context.nameId, 0⟩)) := by
  have serves := ASTInferenceGroup.serves wellFormed atWork.typeCls atWork.envDefnMap
    atWork.cppFileIndentLvl
  have counted : context.numbering = ⟨context.nameId, 0⟩ := by
    rw [SynthesisContext.numbering, atWork.numPremisesProcessed]
  have room : 1 + 1 < sizeMax := by decide
  have premises := emits_premises opts group.names group.DefinesFixtures room defn.premiseDefns
    covered ⟨context.nameId, 0⟩
  have whole : Emits group.names group.DefinesFixtures (writeBody opts defn) 1 ⟨context.nameId, 0⟩
      _ _ true :=
    premises.bind (emits_proposition group.names group.DefinesFixtures defn.propositionDefn _)
  have same : bodyText opts group.names defn context.nameId =
      Stmt.renderList group.names 1 (premiseListStmts opts defn.premiseDefns ⟨context.nameId, 0⟩) ++
        Stmt.render group.names 1 (.returnValue (propositionExpr defn.propositionDefn.target)) := by
    simp only [bodyText, bodyStmts, Stmt.renderList_append, Stmt.renderList, String.append_empty]
  rw [same]
  exact whole context serves counted

/-- The body is written only if the fixtures are there that it calls. -/
theorem defines_of_writeBody (wellFormed : group.WellFormed strict) (atWork : AtWork group context)
    {defn : ASTInferenceDefn} {final : SynthesisContext}
    (ran : (writeBody opts defn).run context = .ok (true, final)) :
    ∀ premise ∈ defn.premiseDefns, premise.hasWhileClause = true → group.DefinesFixtures := by
  intro premise member holds
  by_contra lacks
  obtain ⟨missing, fixtureKey, undefined⟩ := exists_missing lacks
  have bare : context.Serves group.names False 1 :=
    (ASTInferenceGroup.serves wellFormed atWork.typeCls atWork.envDefnMap
      atWork.cppFileIndentLvl).weaken False.elim
  have absent : context.envDefnMap missing = none := atWork.envDefnMap ▸ undefined
  have room : 1 + 1 < sizeMax := by decide
  obtain ⟨key, thrown⟩ := throws_premises opts group.names fixtureKey room defn.premiseDefns
    ⟨premise, member, holds⟩ context.numbering context bare absent rfl
  rw [writeBody, ASTVisitor.verify, run_bind_of_error thrown] at ran
  cases ran

end Body

/-- The names of a parsed definition are spelled as identifiers are. -/
theorem meets_spelled {tokens : List Token} {group : ASTInferenceGroup} {strict : Bool}
    (identifiers : ∀ name, .identifier name ∈ tokens →
      MaximalMunch.Matches Lexer.identifierPattern name.toList)
    (named : group.Named tokens) (wellFormed : group.WellFormed strict)
    {defn : ASTInferenceDefn} (inGroup : defn ∈ group.inferenceDefns)
    (covered : ∀ premise ∈ defn.premiseDefns, premise.hasWhileClause = true → group.DefinesFixtures) :
    defn.Meets spelled group.names := by
  have environment {key : StringType} (defined : key ∈ group.fields) :
      spelled.callable (group.environment key) := by
    obtain ⟨envnDefn, member, same⟩ := group.environment_of_mem defined
    exact same ▸ identifiers _ (named.values envnDefn member)
  have typeCls := environment wellFormed.typeClass
  have proofMethod := environment wellFormed.proofMethod
  have typeCmpMethod := environment wellFormed.typeCmpMethod
  have words {names : List StringType} (stored : ∀ name ∈ names, .identifier name ∈ tokens) :
      ∀ name ∈ names, spelled.object name ∧ spelled.callable name := fun name member =>
    ⟨identifiers name (stored name member), identifiers name (stored name member)⟩
  refine ⟨fun premise member => ?_, ?_⟩
  · obtain ⟨stored, nonempty⟩ := named.premises defn inGroup premise member
    have spells := words stored
    rcases premise with ⟨source, target, _ | body⟩ | ⟨lhs, rhs, oprt, _ | range⟩
    case inferencePremise.none =>
      simp only [ASTPremiseDefn.words, List.forall_mem_append] at spells
      refine ⟨typeCls, proofMethod, ⟨nonempty _ rfl, fun name inSource => (spells.1 name inSource).1⟩,
        ASTDeductionTarget.meets_of_words spells.2, fun _ => typeCmpMethod⟩
    case inferencePremise.some =>
      simp only [ASTPremiseDefn.words, List.forall_mem_append] at spells
      obtain ⟨premise, above, holds⟩ :=
        (ASTInferenceGroup.exists_whileClause_iff defn.premiseDefns).mp ⟨_, member, rfl⟩
      have fixtures := covered premise above holds
      refine ⟨environment fixtures.1, environment fixtures.2,
        ⟨nonempty _ rfl, fun name inSource => (spells.1 name inSource).1⟩,
        ASTDeductionTarget.meets_of_words spells.2⟩
    case inferenceEquality.none =>
      simp only [ASTPremiseDefn.words, List.forall_mem_append] at spells
      refine ⟨typeCls, typeCmpMethod, ASTDeductionTarget.meets_of_words spells.1,
        ASTDeductionTarget.meets_of_words spells.2, fun other same => ?_⟩
      cases same
    case inferenceEquality.some =>
      simp only [ASTPremiseDefn.words, List.forall_mem_append] at spells
      refine ⟨typeCls, typeCmpMethod, ASTDeductionTarget.meets_of_words spells.1.1,
        ASTDeductionTarget.meets_of_words spells.1.2, fun other same => ?_⟩
      obtain rfl := Option.some.inj same
      exact ⟨trivial, ASTDeductionTarget.meets_of_words spells.2⟩
  · exact ASTDeductionTarget.meets_of_words (words (named.propositions defn inGroup))

/-- The definitions of accepted modules that come from a text. -/
theorem bodyText_parsed_iff (semaOpts : SemanticAnalyzer.Options) (opts : Options)
    {input : List Char} {erange : Bool} {driver : ParserDriver} {module : ASTModule}
    (parsed : driver.parseFromString input erange = (0, ⟨module⟩))
    (accepted : (SemanticAnalyzer.run semaOpts module).value = true)
    {group : ASTInferenceGroup} (inModule : group ∈ module.inferenceGroups)
    {defn : ASTInferenceDefn} (inGroup : defn ∈ group.inferenceDefns)
    (covered : ∀ premise ∈ defn.premiseDefns, premise.hasWhileClause = true → group.DefinesFixtures)
    (nameId : UInt32) :
    Cpp.Statements (Cpp.lex (bodyText opts group.names defn nameId).toList) ↔
      defn.Meets grammatical group.names := by
  have wellFormed := (SemanticAnalyzer.visitModule_iff semaOpts.policy module).mp accepted
  obtain ⟨read, derived, same⟩ := Parser.parse_eq_zero_iff.mp parsed
  obtain rfl : module = read := congrArg ParserDriver.module same
  exact bodyText_iff opts (meets_spelled (fun name member => Lexer.matches_of_mem_yylex member)
    (input_named derived group inModule) (wellFormed.groups group inModule) inGroup covered) nameId

/-- The text the visitor's hooks write for the body of an accepted definition is a
sequence of statements exactly if the definition has no range clause, at any
depth, and no name of it or its group is a keyword of C++ where it stands. -/
theorem writeBody_grammatical_iff (semaOpts : SemanticAnalyzer.Options) (opts : Options)
    {input : List Char} {erange : Bool} {driver : ParserDriver} {module : ASTModule}
    (parsed : driver.parseFromString input erange = (0, ⟨module⟩))
    (accepted : (SemanticAnalyzer.run semaOpts module).value = true)
    {group : ASTInferenceGroup} (inModule : group ∈ module.inferenceGroups)
    {defn : ASTInferenceDefn} (inGroup : defn ∈ group.inferenceDefns)
    {context final : SynthesisContext} (atWork : AtWork group context)
    (ran : (writeBody opts defn).run context = .ok (true, final)) :
    VisitsBody opts group defn ∧ ∃ text, final.cppFileOfs = context.cppFileOfs.write text ∧
      (Cpp.Statements (Cpp.lex text.toList) ↔ defn.Meets grammatical group.names) := by
  have wellFormed := ((SemanticAnalyzer.visitModule_iff semaOpts.policy module).mp accepted).groups
    group inModule
  have covered := defines_of_writeBody opts wellFormed atWork ran
  have completed := writeBody_run opts wellFormed atWork covered
  rw [ran] at completed
  obtain ⟨-, rfl⟩ := Prod.mk.inj (Except.ok.inj completed)
  exact ⟨visitsBody opts group defn, _, rfl,
    bodyText_parsed_iff semaOpts opts parsed accepted inModule inGroup covered context.nameId⟩

/-- A context in which the group is at work. -/
def bodyContext (group : ASTInferenceGroup) : SynthesisContext where
  typeCls := group.names.typeCls
  envDefnMap := group.envDefnMap
  cppFileIndentLvl := 1

theorem atWork_bodyContext (group : ASTInferenceGroup) : AtWork group (bodyContext group) :=
  ⟨rfl, rfl, rfl, rfl⟩

section Tutorial

variable (opts : Options)

theorem parse_staticMethodStaticDispatch :
    ParserDriver.parseFromString (spaced (ASTModule.ofInference staticMethodStaticDispatch).tokens)
        false ⟨⟨[]⟩⟩ = (0, ⟨.ofInference staticMethodStaticDispatch⟩) :=
  parseFromString_of_rendering (by decide) (rendering_spaced _) _

theorem definesFixtures_ofInference {defn : ASTInferenceDefn} {group : ASTInferenceGroup}
    (member : group ∈ (ASTModule.ofInference defn).inferenceGroups) : group.DefinesFixtures := by
  obtain rfl := List.mem_singleton.mp member
  simp [ASTInferenceGroup.DefinesFixtures, ASTInferenceGroup.fields,
    envnDefnKeyForTypeAnnotationSetupMethod, envnDefnKeyForTypeAnnotationTeardownMethod]

theorem writeBody_staticMethodStaticDispatch {group : ASTInferenceGroup}
    (member : group ∈ (ASTModule.ofInference staticMethodStaticDispatch).inferenceGroups) :
    (writeBody opts staticMethodStaticDispatch).run (bodyContext group) =
      .ok (true, (bodyContext group).extend (bodyText opts group.names staticMethodStaticDispatch 0)
        (advanceList staticMethodStaticDispatch.premiseDefns ⟨0, 0⟩)) := by
  have accepted : (SemanticAnalyzer.run ⟨true, true, false⟩
      (.ofInference staticMethodStaticDispatch)).value = true := by decide
  have wellFormed := ((SemanticAnalyzer.visitModule_iff _ _).mp accepted).groups group member
  exact writeBody_run opts wellFormed (atWork_bodyContext _) fun _ _ _ =>
    definesFixtures_ofInference member

/-- What is written for the tutorial's inference, which has range clauses. -/
theorem staticMethodStaticDispatch_grammatical_iff :
    ∃ group ∈ (ASTModule.ofInference staticMethodStaticDispatch).inferenceGroups,
      ∃ final : SynthesisContext, ∃ text,
        final.cppFileOfs = (bodyContext group).cppFileOfs.write text ∧
        (Cpp.Statements (Cpp.lex text.toList) ↔
          staticMethodStaticDispatch.Meets grammatical group.names) :=
  ⟨_, .head _, _, (writeBody_grammatical_iff ⟨true, true, false⟩ ⟨false, true, "", ""⟩
    parse_staticMethodStaticDispatch (by decide) (.head _) (.head _) (atWork_bodyContext _)
    (writeBody_staticMethodStaticDispatch _ (.head _))).2⟩

/-- It is accepted, and what is written for it is no sequence of statements. -/
theorem staticMethodStaticDispatch_not_grammatical :
    (SemanticAnalyzer.run ⟨true, true, false⟩ (.ofInference staticMethodStaticDispatch)).value = true ∧
      ∃ group ∈ (ASTModule.ofInference staticMethodStaticDispatch).inferenceGroups, ∃ final,
        (writeBody ⟨false, true, "", ""⟩ staticMethodStaticDispatch).run (bodyContext group) =
          .ok (true, final) ∧
        ¬ Cpp.Statements (Cpp.lex final.cppFileOfs.text.toList) := by
  refine ⟨by decide, _, .head _, _, writeBody_staticMethodStaticDispatch _ (.head _), ?_⟩
  intro derivable
  have same (text : String) (group : ASTInferenceGroup) (numbering : Numbering) :
      ((bodyContext group).extend text numbering).cppFileOfs.text = text := String.empty_append ..
  rw [same] at derivable
  have meets := (bodyText_parsed_iff ⟨true, true, false⟩ _ parse_staticMethodStaticDispatch (by decide)
    (.head _) (.head _) (fun _ _ _ => definesFixtures_ofInference (.head _)) 0).mp derivable
  have ranged := meets.premises (.inferenceEquality ⟨.array "ArgumentsTypes" none,
    .array "ParameterTypes" none, .operatorLte, some ⟨0, 1, .array "ParameterTypes" none⟩⟩)
    (.tail _ (.tail _ (.head _)))
  obtain ⟨-, -, -, -, noLoop⟩ := ranged
  exact (noLoop _ rfl).1

end Tutorial

end Synthesizer

end Snowlake
