import Snowlake.Synth.Completion
import Snowlake.Synth.Output

/-! # Declarations and definitions of member functions

The head of a member function is written twice, to the header file and to the
.cpp file.  Both times the separator before the error parameter is written
whether or not an argument stands before it.
-/

namespace Snowlake

open Emitted

namespace Synthesizer

variable (opts : Options)

/-! ## Heads of functions -/

/-- The parameters of a member function in order: its arguments and, without
exceptions, the error code. -/
def parameterTexts (defn : ASTInferenceDefn) (errorParameter : String) : List String :=
  defn.arguments.map (fun argument => "const " ++ argument.typeName ++ "& " ++ argument.name) ++
    if opts.useException then [] else [errorParameter]

/-- A member function in the header file, with its parameters separated by commas. -/
def memberDeclaration (typeCls : StringType) (defn : ASTInferenceDefn) : String :=
  renderInferenceDefinitionMethodAnnotationComment opts defn.name 1 ++ renderIndentation 1 ++
    typeCls ++ " " ++ defn.name ++ "(" ++
      ", ".intercalate (parameterTexts opts defn "std::error_code*") ++ ");\n\n"

/-- The same function in the .cpp file. -/
def memberDefinition (typeCls clsName : StringType) (defn : ASTInferenceDefn) (body : String) : String :=
  "\n" ++ renderInferenceDefinitionMethodAnnotationComment opts defn.name 0 ++
    typeCls ++ "\n" ++ clsName ++ "::" ++ defn.name ++ "(" ++
      ", ".intercalate (parameterTexts opts defn ("std::error_code* " ++ defaultErrorOutputParameterName)) ++
      ")\n\x7b\n" ++ body ++ "\x7d\n"

/-- The functions in the .cpp file.  A body is the text of statements, in which no
function is defined, and the numbers of the temporaries run on. -/
def memberDefinitions (names : Names) (clsName : StringType) : List ASTInferenceDefn → UInt32 → List String
  | [], _ => []
  | defn :: rest, nameId =>
      memberDefinition opts names.typeCls clsName defn
          (Stmt.renderList names 1 (bodyStmts opts defn nameId)) ::
        memberDefinitions names clsName rest (nameIdAfter defn nameId)

/-- The header file declares, and the .cpp file defines, one function for each
inference of the group and nothing else, in order, under the same return type and
name and with the same list of parameters. -/
structure FilesAgree (group : ASTInferenceGroup) (nameId : UInt32) (header cpp : String) : Prop where
  header : header = headerPreamble opts group.clsName ++
    String.join (group.inferenceDefns.map (memberDeclaration opts group.names.typeCls)) ++ "\x7d;\n"
  cpp : cpp = cppPreamble opts group.clsName ++
    String.join (memberDefinitions opts group.names group.clsName group.inferenceDefns nameId)

/-! ## What is written -/

theorem synthesizeArgumentList_eq (arguments : List ASTInferenceArgument) :
    synthesizeArgumentList arguments = ", ".intercalate
      (arguments.map fun argument => "const " ++ argument.typeName ++ "& " ++ argument.name) := by
  match arguments with
  | [] => rw [synthesizeArgumentList, List.map_nil, String.intercalate_nil]
  | [argument] =>
      rw [synthesizeArgumentList, List.map_cons, List.map_nil, String.intercalate_singleton]
  | argument :: next :: rest =>
      have tail := synthesizeArgumentList_eq (next :: rest)
      simp only [List.map_cons] at tail ⊢
      rw [synthesizeArgumentList, tail, String.intercalate_cons_cons]
      simp

/-- What stands between the parentheses of a function. -/
def writtenParameters (defn : ASTInferenceDefn) (errorParameter : String) : String :=
  synthesizeArgumentList defn.arguments ++ if opts.useException then "" else ", " ++ errorParameter

/-- The first of two lists ends where a separator stands. -/
theorem intercalate_append_singleton (texts : List String) (nonempty : texts ≠ []) (last : String) :
    ", ".intercalate (texts ++ [last]) = ", ".intercalate texts ++ (", " ++ last) := by
  match texts with
  | [] => exact absurd rfl nonempty
  | [text] =>
      rw [List.cons_append, List.nil_append, String.intercalate_cons_cons, String.intercalate_singleton,
        String.intercalate_singleton, String.append_assoc]
  | text :: next :: rest =>
      have tail := intercalate_append_singleton (next :: rest) (by simp) last
      rw [List.cons_append] at tail
      simp only [List.cons_append, String.intercalate_cons_cons, tail, String.append_assoc]

/-- The parameters are separated as they should be behind an argument. -/
theorem writtenParameters_of_arguments (defn : ASTInferenceDefn)
    (separated : opts.useException = true ∨ defn.arguments ≠ []) (errorParameter : String) :
    writtenParameters opts defn errorParameter =
      ", ".intercalate (parameterTexts opts defn errorParameter) := by
  rw [writtenParameters, parameterTexts, synthesizeArgumentList_eq]
  cases exceptions : opts.useException with
  | true => simp
  | false =>
      have nonempty : defn.arguments ≠ [] := separated.resolve_left (by simp [exceptions])
      simp only [Bool.false_eq_true, if_false]
      rw [intercalate_append_singleton _ (by simpa using nonempty)]

/-- A function without arguments has a separator too many before its error parameter. -/
def misplaced (defn : ASTInferenceDefn) : Bool := !opts.useException && defn.arguments.isEmpty

theorem misplaced_eq_false_iff (defn : ASTInferenceDefn) :
    misplaced opts defn = false ↔ opts.useException = true ∨ defn.arguments ≠ [] := by
  cases exceptions : opts.useException <;> simp [misplaced, exceptions]

theorem length_writtenParameters (defn : ASTInferenceDefn) (errorParameter : String) :
    (writtenParameters opts defn errorParameter).length =
      (", ".intercalate (parameterTexts opts defn errorParameter)).length +
        if misplaced opts defn then 2 else 0 := by
  cases found : misplaced opts defn with
  | false =>
      rw [writtenParameters_of_arguments opts defn ((misplaced_eq_false_iff opts defn).mp found)]
      simp
  | true =>
      simp only [misplaced, Bool.and_eq_true, Bool.not_eq_true', List.isEmpty_iff] at found
      obtain ⟨noException, noArgument⟩ := found
      rw [writtenParameters, parameterTexts, noArgument, noException, synthesizeArgumentList]
      have separator : ", ".length = 2 := rfl
      simp [separator, Nat.add_comm]

/-! ## The files -/

theorem declarationText_eq (typeCls : StringType) (defn : ASTInferenceDefn) :
    declarationText opts typeCls defn =
      renderInferenceDefinitionMethodAnnotationComment opts defn.name 1 ++ renderIndentation 1 ++
        typeCls ++ " " ++ defn.name ++ "(" ++ writtenParameters opts defn "std::error_code*" ++ ");\n\n" := by
  simp only [declarationText, declarationLine, writtenParameters, String.append_assoc]
  rfl

theorem declarationText_of_arguments (typeCls : StringType) (defn : ASTInferenceDefn)
    (separated : opts.useException = true ∨ defn.arguments ≠ []) :
    declarationText opts typeCls defn = memberDeclaration opts typeCls defn := by
  rw [declarationText_eq, memberDeclaration, writtenParameters_of_arguments opts defn separated]

theorem length_declarationText (typeCls : StringType) (defn : ASTInferenceDefn) :
    (declarationText opts typeCls defn).length =
      (memberDeclaration opts typeCls defn).length + if misplaced opts defn then 2 else 0 := by
  rw [declarationText_eq, memberDeclaration]
  simp only [String.length_append, length_writtenParameters]
  omega

theorem definitionText_of_arguments (names : Names) (clsName : StringType) (defn : ASTInferenceDefn)
    (nameId : UInt32) (separated : opts.useException = true ∨ defn.arguments ≠ []) :
    definitionText opts names clsName defn nameId = memberDefinition opts names.typeCls clsName defn
      (Stmt.renderList names 1 (bodyStmts opts defn nameId)) := by
  have parameters := writtenParameters_of_arguments opts defn separated
    ("std::error_code* " ++ defaultErrorOutputParameterName)
  rw [memberDefinition, ← parameters, writtenParameters]
  simp only [definitionText, signatureText, String.append_assoc]
  cases opts.useException <;> rfl

theorem length_declarationsText (typeCls : StringType) (defns : List ASTInferenceDefn) :
    (declarationsText opts typeCls defns).length =
      (String.join (defns.map (memberDeclaration opts typeCls))).length +
        2 * defns.countP (misplaced opts) := by
  induction defns with
  | nil => rfl
  | cons head tail ih =>
      rw [declarationsText, List.map_cons, String.join_cons, String.length_append, String.length_append,
        length_declarationText, ih, List.countP_cons]
      split <;> omega

theorem declarationsText_of_arguments (typeCls : StringType) (defns : List ASTInferenceDefn)
    (separated : ∀ defn ∈ defns, opts.useException = true ∨ defn.arguments ≠ []) :
    declarationsText opts typeCls defns = String.join (defns.map (memberDeclaration opts typeCls)) := by
  induction defns with
  | nil => rfl
  | cons head tail ih =>
      rw [declarationsText, List.map_cons, String.join_cons,
        declarationText_of_arguments opts typeCls head (separated head (by simp)),
        ih fun defn member => separated defn (List.mem_cons_of_mem _ member)]

theorem definitionsText_of_arguments (names : Names) (clsName : StringType) (defns : List ASTInferenceDefn)
    (nameId : UInt32) (separated : ∀ defn ∈ defns, opts.useException = true ∨ defn.arguments ≠ []) :
    definitionsText opts names clsName defns nameId =
      String.join (memberDefinitions opts names clsName defns nameId) := by
  induction defns generalizing nameId with
  | nil => rfl
  | cons head tail ih =>
      rw [definitionsText, memberDefinitions, String.join_cons,
        definitionText_of_arguments opts names clsName head nameId (separated head (by simp)),
        ih _ fun defn member => separated defn (List.mem_cons_of_mem _ member)]

theorem filesAgree_texts_iff (group : ASTInferenceGroup) (nameId : UInt32) :
    FilesAgree opts group nameId (headerText opts group) (cppText opts group nameId) ↔
      opts.useException = true ∨ ∀ defn ∈ group.inferenceDefns, defn.arguments ≠ [] := by
  have each : (opts.useException = true ∨ ∀ defn ∈ group.inferenceDefns, defn.arguments ≠ []) ↔
      ∀ defn ∈ group.inferenceDefns, opts.useException = true ∨ defn.arguments ≠ [] := by
    by_cases exceptions : opts.useException = true <;> simp [exceptions]
  rw [each]
  constructor
  · intro agree defn member
    -- A separator too many makes the header file longer.
    have same := congrArg String.length agree.header
    rw [headerText] at same
    simp only [String.length_append, length_declarationsText] at same
    have none : group.inferenceDefns.countP (misplaced opts) = 0 := by omega
    rw [List.countP_eq_zero] at none
    exact (misplaced_eq_false_iff opts defn).mp (by simpa using none defn member)
  · intro separated
    constructor
    · rw [headerText, declarationsText_of_arguments opts _ _ separated]
    · rw [cppText, definitionsText_of_arguments opts _ _ _ _ separated]

/-- A visit of the group completes and leaves a header file and a .cpp file that agree. -/
def SignaturesAgree (opens : String → Bool) (context : SynthesisContext) (group : ASTInferenceGroup) :
    Prop :=
  ∃ final header cpp, ((visitor opts opens).visitInferenceGroup group).run context = .ok (true, final) ∧
    final.files (headerFilepath opts group) = some header ∧
    final.files (cppFilepath opts group) = some cpp ∧ FilesAgree opts group context.nameId header cpp

theorem synthesizeGroup_header (context : SynthesisContext) (group : ASTInferenceGroup) :
    (synthesizeGroup opts context group).files (headerFilepath opts group) =
      some (headerText opts group) := by
  unfold synthesizeGroup
  exact (Function.update_of_ne (headerFilepath_ne_cppFilepath opts group group) _ _).trans
    (Function.update_self _ _ _)

theorem synthesizeGroup_cpp (context : SynthesisContext) (group : ASTInferenceGroup) :
    (synthesizeGroup opts context group).files (cppFilepath opts group) =
      some (cppText opts group context.nameId) := by
  unfold synthesizeGroup
  exact Function.update_self _ _ _

/-- The files of a group of an accepted module agree exactly if the group has the
fixture methods its while clauses need, and there are exceptions or every
inference has an argument. -/
theorem signaturesAgree_iff (opens : String → Bool) (semaOpts : SemanticAnalyzer.Options)
    (module : ASTModule) (accepted : (SemanticAnalyzer.run semaOpts module).value = true)
    (group : ASTInferenceGroup) (member : group ∈ module.inferenceGroups) (context : SynthesisContext)
    (idle : context.Idle) (headerOpens : opens (headerFilepath opts group) = true)
    (cppOpens : opens (cppFilepath opts group) = true) :
    SignaturesAgree opts opens context group ↔
      (group.UsesWhileClause → group.DefinesFixtures) ∧
        (opts.useException = true ∨ ∀ defn ∈ group.inferenceDefns, defn.arguments ≠ []) := by
  have wellFormed := ((SemanticAnalyzer.visitModule_iff semaOpts.policy module).mp accepted).groups
    group member
  by_cases covered : group.UsesWhileClause → group.DefinesFixtures
  · have completed := visitInferenceGroup_run opts opens wellFormed idle headerOpens cppOpens
      fun defn inside premise nested holds =>
        covered (group.usesWhileClause_iff.mpr ⟨defn, inside, premise, nested, holds⟩)
    rw [← filesAgree_texts_iff opts group context.nameId, and_iff_right covered]
    constructor
    · intro agree
      obtain ⟨final, header, cpp, returned, headerFile, cppFile, texts⟩ := agree
      rw [completed] at returned
      cases returned
      rw [synthesizeGroup_header] at headerFile
      rw [synthesizeGroup_cpp] at cppFile
      cases headerFile
      cases cppFile
      exact texts
    · intro texts
      exact ⟨_, _, _, completed, synthesizeGroup_header opts context group,
        synthesizeGroup_cpp opts context group, texts⟩
  · -- The lookup of a fixture method ends the visit.
    have uses : group.UsesWhileClause := by
      by_contra unused
      exact covered fun uses => absurd uses unused
    have lacks : ¬ group.DefinesFixtures := fun defines => covered fun _ => defines
    obtain ⟨key, thrown⟩ := visitInferenceGroup_throws opts opens wellFormed idle headerOpens cppOpens
      uses lacks
    constructor
    · intro agree
      obtain ⟨final, header, cpp, returned, rest⟩ := agree
      rw [thrown] at returned
      cases returned
    · intro claimed
      exact absurd claimed.1 covered

/-- The group of `ASTModule.ofInference`. -/
def groupOfInference (defn : ASTInferenceDefn) : ASTInferenceGroup where
  name := "TypeRules"
  environmentDefns := [⟨"ClassName", "Checker"⟩, ⟨"TypeClass", "TypeCls"⟩,
    ⟨"ProofMethod", "proveType"⟩, ⟨"TypeCmpMethod", "cmpType"⟩,
    ⟨"TypeAnnotationSetupMethod", "setup"⟩, ⟨"TypeAnnotationTeardownMethod", "teardown"⟩]
  inferenceDefns := [defn]

theorem staticMethodStaticDispatch_signaturesAgree_iff :
    SignaturesAgree ⟨false, false, "SampleProject.sl", "./"⟩ (fun _ => true) {}
        (groupOfInference staticMethodStaticDispatch) ↔
      ((groupOfInference staticMethodStaticDispatch).UsesWhileClause →
          (groupOfInference staticMethodStaticDispatch).DefinesFixtures) ∧
        (false = true ∨ ∀ defn ∈ (groupOfInference staticMethodStaticDispatch).inferenceDefns,
          defn.arguments ≠ []) :=
  signaturesAgree_iff _ _ ⟨true, true, false⟩ (.ofInference staticMethodStaticDispatch) (by decide) _
    List.mem_cons_self _ ⟨rfl, rfl, rfl, rfl, rfl⟩ rfl rfl

/-- A constant is typed in the context alone. -/
def unitExpression : ASTInferenceDefn where
  name := "UnitExpression"
  globalDecls := [⟨"CONTEXT"⟩]
  arguments := []
  premiseDefns := [.inferencePremise ⟨⟨["CONTEXT", "unit"]⟩, .singular "UnitType", none⟩]
  propositionDefn := ⟨.singular "UnitType"⟩

/-- Its files declare and define a function with the parameters `(, std::error_code*)`. -/
theorem unitExpression_signatures_disagree :
    (SemanticAnalyzer.run ⟨true, true, false⟩ (.ofInference unitExpression)).value = true ∧
      writtenParameters ⟨false, false, "", ""⟩ unitExpression "std::error_code*" =
        ", std::error_code*" ∧
      ¬ SignaturesAgree ⟨false, false, "", ""⟩ (fun _ => true) {} (groupOfInference unitExpression) := by
  refine ⟨by decide, by decide, ?_⟩
  intro agree
  obtain ⟨final, header, cpp, returned, headerFile, cppFile, texts⟩ := agree
  have wellFormed := ((SemanticAnalyzer.visitModule_iff ⟨true, true⟩
    (.ofInference unitExpression)).mp (by decide)).groups (groupOfInference unitExpression)
      List.mem_cons_self
  have idle := SynthesisContext.idle_initial 1 fun _ => none
  have completed := visitInferenceGroup_run ⟨false, false, "", ""⟩ (fun _ => true) wellFormed idle rfl rfl
    (by decide)
  rw [completed] at returned
  cases returned
  rw [synthesizeGroup_header] at headerFile
  rw [synthesizeGroup_cpp] at cppFile
  cases headerFile
  cases cppFile
  have separated := (filesAgree_texts_iff _ _ _).mp texts
  exact absurd separated (by decide)

end Synthesizer

end Snowlake
