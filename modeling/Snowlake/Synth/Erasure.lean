import Snowlake.Cpp.Lexemes
import Snowlake.Synth.Layout

/-! # The program without its annotations

Annotation comments stand on lines of their own, between code and code.  So they
add no token, but for the comment on the source file: what stands behind the end
of a comment in its path is read as code.  Two runs with the same tokens differ
in their comments only.
-/

namespace Snowlake

open Cpp (Mode Reads Lines SameTokens tokenSequence isSpace Neat)

namespace Synthesizer

open Emitted

/-! ## The comment on the source file -/

def inputSourceComment (path : String) : String :=
  renderCommentBlock 0 ("This file was synthesized from " ++ cString path)

/-- What is read of a path in its comment is white space, and it ends in a comment. -/
def HarmlessPath (path : String) : Prop :=
  (Mode.block.after (annotatedPath path)).inBlock = true ∧
    ∀ c ∈ Mode.block.kept (annotatedPath path), isSpace c = true

instance (path : String) : Decidable (HarmlessPath path) := inferInstanceAs (Decidable (_ ∧ _))

/-- A path that does not end its comment is harmless. -/
theorem harmlessPath_of_noEnd {path : String} (noEnd : ¬ ['*', '/'] <:+: path.toList) :
    HarmlessPath path := by
  obtain ⟨inside, silent⟩ := inBlock_annotatedPath noEnd
  rw [HarmlessPath, silent]
  exact ⟨inside, by simp⟩

theorem toList_inputSourceComment (path : String) : (inputSourceComment path).toList =
    "/**\n * This file was synthesized from ".toList ++ (annotatedPath path ++ "\n */\n".toList) := by
  have noIndentation : renderIndentation 0 = "" := rfl
  simp only [inputSourceComment, renderCommentBlock, noIndentation, commentBlockBegin, commentBlockEnd,
    String.toList_append, snprintf_inputSource]
  simp

/-- Whatever the path is, the code goes on behind its comment. -/
theorem lines_inputSourceComment (path : String) : Lines (inputSourceComment path).toList := by
  have opened : Mode.code.after "/**\n * This file was synthesized from ".toList = .block := by decide
  have closed : ∀ mode : Mode, mode.after "\n */\n".toList = .code := by
    intro mode
    cases mode <;> decide
  rw [toList_inputSourceComment]
  refine ⟨.inr ?_, ?_⟩
  · rw [← List.append_assoc]
    exact List.getLast?_append_of_ne_nil _ (by decide)
  · rw [Mode.after_append, Mode.after_append, opened, closed]

/-- The comment on the source file adds tokens unless its path is harmless. -/
theorem tokenSequence_inputSourceComment_iff (path : String) :
    tokenSequence (inputSourceComment path).toList = [] ↔ HarmlessPath path := by
  have opened : Mode.code.after "/**\n * This file was synthesized from ".toList = .block ∧
      Mode.code.kept "/**\n * This file was synthesized from ".toList = [' '] := by decide
  -- Within a comment its end leaves the end of the line; elsewhere it is code.
  have closed : ∀ mode : Mode, (∀ c ∈ mode.kept "\n */\n".toList, isSpace c = true) ↔
      mode.inBlock = true := by
    intro mode
    rw [← List.all_eq_true]
    cases mode <;> decide
  rw [(lines_inputSourceComment path).tokenSequence, Cpp.lexemes_eq_nil_iff, toList_inputSourceComment,
    Mode.kept_append, Mode.kept_append, opened.1, opened.2, List.forall_mem_append,
    List.forall_mem_append, closed, HarmlessPath, and_comm (a := Mode.inBlock _ = true)]
  exact and_iff_right (by simp [isSpace])

/-! ## Functions -/

section Functions

variable {names : Names}

/-- What the reader keeps of an indented comment. -/
theorem isSpace_margin (width : Nat) : ∀ c ∈ List.replicate width ' ' ++ [' ', '\n'], isSpace c = true := by
  intro c member
  rcases List.mem_append.mp member with inSpaces | atEnd
  · rw [List.eq_of_mem_replicate inSpaces]
    rfl
  · rcases List.mem_pair.mp atEnd with rfl | rfl <;> rfl

theorem comment_noTokens {text : String} (isComment : spelled.comment text) (level : Nat) :
    SameTokens (Stmt.render names level (.comment text)).toList [] := by
  obtain ⟨body, starts, oneLine⟩ := isComment
  have line : (Stmt.render names level (.comment text)).toList =
      List.replicate (4 * level) ' ' ++ '/' :: '/' :: (body ++ ['\n']) := by
    simp [Stmt.render, toList_renderIndentation, starts]
  have block := @Cpp.Block.comment level body oneLine
  have reads := (Cpp.reads_plain (Cpp.neat_spaces level).plain).append (Cpp.reads_lineComment oneLine)
  rw [line]
  exact .of_reads block.wholeLines reads (isSpace_margin _)

theorem sameTokens_stmts {stmts : List Stmt} (meets : Stmt.MeetsList spelled names stmts) (level : Nat) :
    SameTokens (Stmt.renderList names level stmts).toList (Stmt.renderList names level stmts).toList :=
  .refl (block_stmts meets level).lines

variable (opts opts' : Options)

theorem annotationLines_noTokens (numbering : Numbering) (level : Nat) :
    SameTokens (Stmt.renderList names level (annotationLines opts numbering)).toList [] := by
  rw [annotationLines]
  split
  · exact .refl .nil
  · rw [Stmt.renderList, Stmt.renderList, String.append_empty]
    exact comment_noTokens (own_spelled.premiseComment _) level

theorem sameTokens_annotationLines (numbering : Numbering) (level : Nat) :
    SameTokens (Stmt.renderList names level (annotationLines opts numbering)).toList
      (Stmt.renderList names level (annotationLines opts' numbering)).toList :=
  (annotationLines_noTokens opts numbering level).trans
    (annotationLines_noTokens opts' numbering level).symm

mutual
/-- The statements of a premise have the same tokens with annotations and without. -/
theorem sameTokens_premise {premise : ASTPremiseDefn}
    (meets : ∀ nested ∈ premise.documentOrder, nested.Meets spelled names) (numbering : Numbering)
    (level : Nat) :
    SameTokens (Stmt.renderList names level (premiseStmts opts premise numbering)).toList
      (Stmt.renderList names level (premiseStmts opts' premise numbering)).toList := by
  match premise with
  | .inferencePremise ⟨source, target, none⟩ =>
      have plain := meets _ List.mem_cons_self
      have stmts := sameTokens_stmts
        ((meetsList_plainPremiseStmts own_spelled numbering.nameId source target).mpr plain) level
      simp only [premiseStmts, Stmt.renderList_append, String.toList_append]
      exact (sameTokens_annotationLines opts opts' numbering level).append stmts
  | .inferencePremise ⟨source, target, some body⟩ =>
      simp only [ASTPremiseDefn.documentOrder, List.forall_mem_cons] at meets
      obtain ⟨setup, teardown⟩ := (meetsList_fixtureStmts own_spelled source target body).mpr meets.1
      have inside := sameTokens_premises meets.2 numbering level
      simp only [premiseStmts, Stmt.renderList_append, String.toList_append]
      exact (((sameTokens_annotationLines opts opts' numbering level).append
        (sameTokens_stmts setup level)).append inside).append (sameTokens_stmts teardown level)
  | .inferenceEquality defn =>
      have equality := meets _ List.mem_cons_self
      exact sameTokens_stmts ((meetsList_equalityStmts own_spelled defn).mpr equality) level

theorem sameTokens_premises {premises : List ASTPremiseDefn}
    (meets : ∀ nested ∈ ASTPremiseDefn.documentOrderList premises, nested.Meets spelled names)
    (numbering : Numbering) (level : Nat) :
    SameTokens (Stmt.renderList names level (premiseListStmts opts premises numbering)).toList
      (Stmt.renderList names level (premiseListStmts opts' premises numbering)).toList := by
  match premises with
  | [] => exact .refl .nil
  | head :: tail =>
      simp only [ASTPremiseDefn.documentOrderList, List.forall_mem_append] at meets
      simp only [premiseListStmts, Stmt.renderList_append, String.toList_append]
      exact (sameTokens_premise meets.1 numbering level).append
        (sameTokens_premises meets.2 (advance head numbering) level)
end

theorem sameTokens_body {defn : ASTInferenceDefn} (meets : defn.Meets spelled names) (nameId : UInt32) :
    SameTokens (bodyText opts names defn nameId).toList (bodyText opts' names defn nameId).toList := by
  have premises := sameTokens_premises opts opts' (meets.premises) ⟨nameId, 0⟩ 1
  have isReturn : Stmt.MeetsList spelled names [.returnValue (propositionExpr defn.propositionDefn.target)] :=
    ⟨meets_propositionExpr.mpr meets.proposition, trivial⟩
  simp only [bodyText, bodyStmts, Stmt.renderList_append, String.toList_append]
  exact premises.append (sameTokens_stmts isReturn 1)

theorem commentBlock_noTokens (level : Nat) {text : String} (noSlash : '/' ∉ text.toList) :
    SameTokens (renderCommentBlock level text).toList [] :=
  .of_reads (wholeLines_renderCommentBlock level text) (reads_renderCommentBlock_of_noSlash level noSlash)
    (isSpace_margin _)

theorem methodComment_noTokens {name : StringType} (word : spelled.callable name) (level : Nat) :
    SameTokens (renderInferenceDefinitionMethodAnnotationComment opts name level).toList [] := by
  rw [renderInferenceDefinitionMethodAnnotationComment]
  split
  · exact .refl .nil
  · exact commentBlock_noTokens level (noSlash_around word (by simp) (by simp))

theorem classComment_noTokens {name : StringType} (word : spelled.callable name) :
    SameTokens (renderClassAnnotationComment opts name).toList [] := by
  rw [renderClassAnnotationComment]
  split
  · exact .refl .nil
  · exact commentBlock_noTokens 0 (noSlash_around word (by simp) (by simp))

theorem lines_signature {typeCls clsName : StringType} {defn : ASTInferenceDefn}
    (isType : spelled.callable typeCls) (isClass : spelled.callable clsName) (head : HeadSpelled defn) :
    Lines (signatureText opts typeCls clsName defn).toList := by
  have brace : Lines "\x7b\n".toList := ⟨.inr rfl, rfl⟩
  have lines := ((neat_word isType).lines.append (neat_signature opts isClass head).lines).append brace
  simpa [signatureText] using lines

theorem lines_declaration {typeCls : StringType} {defn : ASTInferenceDefn}
    (isType : spelled.callable typeCls) (head : HeadSpelled defn) :
    Lines (renderIndentation 1 ++ declarationLine opts typeCls defn).toList := by
  have indentation : Neat "    ".toList := .of_checks (by decide)
  have error : Neat (if opts.useException then "" else ", std::error_code*").toList := by
    split
    · exact .nil
    · exact .of_checks (by decide)
  have parameters := neat_parens ((neat_argumentList _ head.arguments).append error)
  have member := ((indentation.append (neat_word isType)).append neat_space).append (neat_word head.name)
  have blank : Lines ['\n'] := ⟨.inr rfl, rfl⟩
  have lines := ((member.append parameters).append neat_semicolon).lines.append blank
  have same : renderIndentation 1 = "    " := rfl
  simpa [declarationLine, same] using lines

variable {opts opts'} (exceptions : opts.useException = opts'.useException)
include exceptions

theorem sameTokens_definitions {clsName : StringType} (isClass : spelled.callable clsName)
    (isType : spelled.callable names.typeCls) (defns : List ASTInferenceDefn)
    (isSpelled : ∀ defn ∈ defns, HeadSpelled defn ∧ defn.Meets spelled names) (nameId : UInt32) :
    SameTokens (definitionsText opts names clsName defns nameId).toList
      (definitionsText opts' names clsName defns nameId).toList := by
  induction defns generalizing nameId with
  | nil => exact .refl .nil
  | cons defn rest ih =>
      obtain ⟨head, meets⟩ := isSpelled defn List.mem_cons_self
      have blank : Lines "\n".toList := ⟨.inr rfl, rfl⟩
      have brace : Lines "\x7d\n".toList := ⟨.inr rfl, rfl⟩
      have comment := (methodComment_noTokens opts head.name 0).trans
        (methodComment_noTokens opts' head.name 0).symm
      have signature : signatureText opts names.typeCls clsName defn =
          signatureText opts' names.typeCls clsName defn := by
        rw [signatureText, signatureText, exceptions]
      have same := ((SameTokens.refl blank).append (comment.append
        ((SameTokens.refl (lines_signature opts' isType isClass head)).append
          ((sameTokens_body opts opts' meets nameId).append (.refl brace)))))
      have later := ih (fun other member => isSpelled other (List.mem_cons_of_mem _ member))
        (nameIdAfter defn nameId)
      simp only [definitionsText, definitionText_eq, String.toList_append, signature] at same later ⊢
      exact same.append later

theorem sameTokens_declarations {typeCls : StringType} (isType : spelled.callable typeCls)
    (defns : List ASTInferenceDefn) (heads : ∀ defn ∈ defns, HeadSpelled defn) :
    SameTokens (declarationsText opts typeCls defns).toList
      (declarationsText opts' typeCls defns).toList := by
  induction defns with
  | nil => exact .refl .nil
  | cons defn rest ih =>
      have head := heads defn List.mem_cons_self
      have comment := (methodComment_noTokens opts head.name 1).trans
        (methodComment_noTokens opts' head.name 1).symm
      have line : declarationLine opts typeCls defn = declarationLine opts' typeCls defn := by
        rw [declarationLine, declarationLine, exceptions]
      have same := comment.append (.refl (lines_declaration opts' isType head))
      have later := ih fun other member => heads other (List.mem_cons_of_mem _ member)
      simp only [declarationsText, declarationText, String.toList_append, line] at same later ⊢
      exact same.append later

end Functions

/-! ## Files -/

section Files

variable (opts : Options)

/-- What stands behind the comment on the source file, in the header file. -/
def headerCode (group : ASTInferenceGroup) : String :=
  "\n" ++ ("#pragma once\n\n" ++ (renderSystemHeaderIncludes opts ++ ("\n" ++
    (renderClassAnnotationComment opts group.clsName ++ ("class " ++ (group.clsName ++ ("\n\x7b\npublic:\n" ++
      (declarationsText opts group.names.typeCls group.inferenceDefns ++ "\x7d;\n"))))))))

/-- And in the .cpp file. -/
def cppCode (group : ASTInferenceGroup) (nameId : UInt32) : String :=
  "\n" ++ (renderCustomInclude (cString group.clsName) ++
    (renderCustomInclude errorCodeHeaderFilenameBase ++
      definitionsText opts group.names group.clsName group.inferenceDefns nameId))

/-- A file has its comments, then its code. -/
def annotated (code : String) : String :=
  authoringCommentBlock ++ "\n\n" ++ (renderInputSourceAnnotationComment opts ++ code)

theorem headerText_eq (group : ASTInferenceGroup) :
    headerText opts group = annotated opts (headerCode opts group) := by
  simp only [headerText, headerPreamble, annotated, headerCode, String.append_assoc]

theorem cppText_eq (group : ASTInferenceGroup) (nameId : UInt32) :
    cppText opts group nameId = annotated opts (cppCode opts group nameId) := by
  simp only [cppText, cppPreamble, annotated, cppCode, String.append_assoc]

theorem lines_inputSource : Lines (renderInputSourceAnnotationComment opts).toList := by
  rw [renderInputSourceAnnotationComment]
  split
  · exact .nil
  · exact lines_inputSourceComment opts.inputFilepath

/-- The tokens of a file are those of the comment on its source and of its code. -/
theorem tokenSequence_annotated {code : String} (lines : Lines code.toList) :
    tokenSequence (annotated opts code).toList =
      tokenSequence (renderInputSourceAnnotationComment opts).toList ++ tokenSequence code.toList := by
  have kept : Mode.code.kept (authoringCommentBlock ++ "\n\n").toList = [' ', '\n', '\n'] := by decide
  have authoring : SameTokens (authoringCommentBlock ++ "\n\n").toList [] :=
    .of_reads (.inr (by decide)) ⟨by decide, kept⟩ (by simp [isSpace])
  have comment := lines_inputSource opts
  have same := (authoring.append (.refl (comment.append lines))).tokens
  rw [List.nil_append, comment.tokenSequence_append lines] at same
  simpa only [annotated, String.toList_append] using same

theorem lines_systemHeaderIncludes : Lines (renderSystemHeaderIncludes opts).toList := by
  rw [renderSystemHeaderIncludes]
  cases opts.useException with
  | true => exact ⟨.inr (by decide), by decide⟩
  | false => exact ⟨.inr (by decide), by decide⟩

variable {opts} {opts' : Options} (exceptions : opts.useException = opts'.useException)
  {group : ASTInferenceGroup} (isSpelled : GroupSpelled group)
include exceptions isSpelled

theorem sameTokens_headerCode :
    SameTokens (headerCode opts group).toList (headerCode opts' group).toList := by
  have newline : Lines "\n".toList := ⟨.inr rfl, rfl⟩
  have pragma : Lines "#pragma once\n\n".toList := ⟨.inr (by decide), by decide⟩
  have includes : renderSystemHeaderIncludes opts = renderSystemHeaderIncludes opts' := by
    rw [renderSystemHeaderIncludes, renderSystemHeaderIncludes, exceptions]
  have comment := (classComment_noTokens opts isSpelled.clsName).trans
    (classComment_noTokens opts' isSpelled.clsName).symm
  have class' : Neat "class ".toList := .of_checks (by decide)
  have opening : Lines "\x7b\npublic:\n".toList := ⟨.inr (by decide), by decide⟩
  have head : Lines ("class " ++ (group.clsName ++ "\n\x7b\npublic:\n")).toList := by
    simpa using (class'.append (neat_word isSpelled.clsName)).lines.append opening
  have declarations := sameTokens_declarations exceptions isSpelled.typeCls group.inferenceDefns
    fun defn member => (isSpelled.definitions defn member).1
  have closing : Lines "\x7d;\n".toList := ⟨.inr (by decide), by decide⟩
  have code := (((SameTokens.refl newline).append (.refl pragma)).append
    (.refl (lines_systemHeaderIncludes opts'))).append (.refl newline)
  have whole := (((code.append comment).append (.refl head)).append declarations).append (.refl closing)
  simpa [headerCode, includes] using whole

theorem sameTokens_cppCode (nameId : UInt32) :
    SameTokens (cppCode opts group nameId).toList (cppCode opts' group nameId).toList := by
  have newline : Lines "\n".toList := ⟨.inr rfl, rfl⟩
  have included := block_include
    (List.all_eq_true.mpr fun c member => wordChars isSpelled.clsName c (mem_of_mem_cString member))
  have errors := @block_include errorCodeHeaderFilenameBase (by decide)
  have definitions := sameTokens_definitions exceptions isSpelled.clsName isSpelled.typeCls
    group.inferenceDefns isSpelled.definitions nameId
  have whole := (((SameTokens.refl newline).append (.refl included.lines)).append
    (.refl errors.lines)).append definitions
  simpa [cppCode] using whole

end Files

/-! ## Runs -/

/-- The tokens of what a file holds. -/
def fileTokens (contents : Option String) : Option (List (List Char)) :=
  contents.map fun text => tokenSequence text.toList

/-- Each file holds the same tokens in both stores. -/
def SameFiles (first second : String → Option String) : Prop :=
  ∀ path, fileTokens (first path) = fileTokens (second path)

section Runs

variable {opts opts' : Options}

theorem fileTokens_annotated_iff {code code' : String} (same : SameTokens code.toList code'.toList) :
    fileTokens (some (annotated opts code)) = fileTokens (some (annotated opts' code')) ↔
      tokenSequence (renderInputSourceAnnotationComment opts).toList =
        tokenSequence (renderInputSourceAnnotationComment opts').toList := by
  simp only [fileTokens, Option.map_some, Option.some.injEq, tokenSequence_annotated opts same.left,
    tokenSequence_annotated opts' same.right, same.tokens]
  exact List.append_left_inj _

/-- No later write takes the place of the last group's header file. -/
theorem header_of_last (base : String → Option String) (before : List ASTInferenceGroup)
    (last : ASTInferenceGroup) (nameId : UInt32) :
    Writes.writeAll base (groupsFiles opts (before ++ [last]) nameId) (headerFilepath opts last) =
      some (headerText opts last) := by
  have apart := headerFilepath_ne_cppFilepath opts last last
  have files : groupsFiles opts [last] (nameIdAfterGroups before nameId) =
      [(headerFilepath opts last, some (headerText opts last)),
        (cppFilepath opts last, some (cppText opts last (nameIdAfterGroups before nameId)))] := rfl
  rw [groupsFiles_append, files]
  exact Writes.writeAll_split (by simpa using apart) base

theorem outputFilepath_congr (outputPath : opts.outputPath = opts'.outputPath) (filename : String) :
    outputFilepath opts filename = outputFilepath opts' filename := by
  rw [outputFilepath, outputFilepath, outputPath]

variable (exceptions : opts.useException = opts'.useException)
  (outputPath : opts.outputPath = opts'.outputPath)
include exceptions outputPath

/-- The files written in one run and in the other, as far as tokens go. -/
theorem groupsFiles_tokens (comments : tokenSequence (renderInputSourceAnnotationComment opts).toList =
      tokenSequence (renderInputSourceAnnotationComment opts').toList)
    (groups : List ASTInferenceGroup) (isSpelled : ∀ group ∈ groups, GroupSpelled group) (nameId : UInt32) :
    (groupsFiles opts groups nameId).map (fun write => (write.1, fileTokens write.2)) =
      (groupsFiles opts' groups nameId).map (fun write => (write.1, fileTokens write.2)) := by
  induction groups generalizing nameId with
  | nil => rfl
  | cons group rest ih =>
      have spelledGroup := isSpelled group List.mem_cons_self
      have header := (fileTokens_annotated_iff (sameTokens_headerCode exceptions spelledGroup)).mpr comments
      have cpp := (fileTokens_annotated_iff
        (sameTokens_cppCode exceptions spelledGroup nameId)).mpr comments
      have later := ih (fun other member => isSpelled other (List.mem_cons_of_mem _ member))
        (nameIdAfterAll group.inferenceDefns nameId)
      simp only [groupsFiles, List.map_append, groupFiles, List.map_cons, List.map_nil, headerText_eq,
        cppText_eq, header, cpp, later, outputFilepath_congr outputPath]

variable {opens : String → Bool} {module : ASTModule} {strict : Bool}
  {context final final' : SynthesisContext}

/-- Two runs that differ in their comments leave files with the same tokens
exactly if no group is synthesized or the comments on the source file have. -/
theorem sameFiles_iff (wellFormed : module.WellFormed strict) (idle : context.Idle)
    (isSpelled : ∀ group ∈ module.inferenceGroups, GroupSpelled group)
    (ran : (run opts opens module).run context = .ok (true, final))
    (ran' : (run opts' opens module).run context = .ok (true, final')) :
    SameFiles final.files final'.files ↔ module.inferenceGroups = [] ∨
      tokenSequence (renderInputSourceAnnotationComment opts).toList =
        tokenSequence (renderInputSourceAnnotationComment opts').toList := by
  have written := (run_returns opts opens wellFormed idle ran).1
  have written' := (run_returns opts' opens wellFormed idle ran').1
  rw [synthesizeGroups_files] at written written'
  have begun : (writeErrorCodeFiles opts context).files = (writeErrorCodeFiles opts' context).files := by
    simp only [writeErrorCodeFiles, outputFilepath_congr outputPath]
  have counted : (writeErrorCodeFiles opts context).nameId =
      (writeErrorCodeFiles opts' context).nameId := rfl
  rw [begun, counted] at written
  generalize (writeErrorCodeFiles opts' context).files = base at written written'
  generalize (writeErrorCodeFiles opts' context).nameId = nameId at written written'
  constructor
  · intro same
    rcases List.eq_nil_or_concat module.inferenceGroups with none | ⟨before, last, split⟩
    · exact .inl none
    · right
      rw [List.concat_eq_append] at split
      have member : last ∈ module.inferenceGroups := by
        rw [split]
        exact List.mem_append_right _ List.mem_cons_self
      have path : headerFilepath opts last = headerFilepath opts' last := outputFilepath_congr outputPath _
      have header := same (headerFilepath opts last)
      rw [written, written', split, header_of_last, path, header_of_last, headerText_eq,
        headerText_eq] at header
      exact (fileTokens_annotated_iff (sameTokens_headerCode exceptions (isSpelled last member))).mp header
  · rintro (none | comments) path
    · rw [written, written', none]
      rfl
    · have writes := groupsFiles_tokens exceptions outputPath comments _ isSpelled nameId
      have view := congrFun
        (Writes.writeAll_map fileTokens (groupsFiles opts module.inferenceGroups nameId) base) path
      have view' := congrFun
        (Writes.writeAll_map fileTokens (groupsFiles opts' module.inferenceGroups nameId) base) path
      rw [writes, ← view'] at view
      rw [written, written']
      exact view

end Runs

/-- With annotation comments, for the source at a path. -/
def Options.annotating (opts : Options) (path : String) : Options :=
  { opts with suppressAnnotationComments := false, inputFilepath := path }

/-- Without them. -/
def Options.suppressing (opts : Options) : Options :=
  { opts with suppressAnnotationComments := true }

/-- Over an accepted module that comes from a text, annotation comments change no
token of any file, and neither does another path, exactly if no group is
synthesized or both paths are harmless. -/
theorem annotations_iff (semaOpts : SemanticAnalyzer.Options) (opts : Options) (path path' : String)
    {input : List Char} {erange : Bool} {driver : ParserDriver} {module : ASTModule}
    (parsed : driver.parseFromString input erange = (0, ⟨module⟩))
    (accepted : (SemanticAnalyzer.run semaOpts module).value = true)
    (opens : String → Bool) (incrementalInt : UInt64) (files : String → Option String)
    {commented suppressed renamed : SynthesisContext}
    (ran : (run (opts.annotating path) opens module).run
      { incrementalInt := incrementalInt, files := files } = .ok (true, commented))
    (ranSuppressed : (run opts.suppressing opens module).run
      { incrementalInt := incrementalInt, files := files } = .ok (true, suppressed))
    (ranRenamed : (run (opts.annotating path') opens module).run
      { incrementalInt := incrementalInt, files := files } = .ok (true, renamed)) :
    (SameFiles commented.files suppressed.files ∧ SameFiles commented.files renamed.files) ↔
      module.inferenceGroups = [] ∨ (HarmlessPath path ∧ HarmlessPath path') := by
  have wellFormed := (SemanticAnalyzer.visitModule_iff semaOpts.policy module).mp accepted
  have idle := SynthesisContext.idle_initial incrementalInt files
  have covered := (run_returns _ opens wellFormed idle ran).2
  have isSpelled : ∀ group ∈ module.inferenceGroups, GroupSpelled group := fun group member =>
    groupSpelled_of_parsed parsed accepted member (covered group member)
  have none : tokenSequence (renderInputSourceAnnotationComment opts.suppressing).toList = [] :=
    Lines.nil.tokenSequence.trans Cpp.lexemes_nil
  have comment : ∀ path, renderInputSourceAnnotationComment (opts.annotating path) =
      inputSourceComment path := fun _ => rfl
  rw [sameFiles_iff (by rfl) (by rfl) wellFormed idle isSpelled ran ranSuppressed,
    sameFiles_iff (by rfl) (by rfl) wellFormed idle isSpelled ran ranRenamed, none, comment, comment,
    ← or_and_left, tokenSequence_inputSourceComment_iff]
  refine or_congr_right (and_congr_right fun harmless => ?_)
  rw [(tokenSequence_inputSourceComment_iff path).mpr harmless, eq_comm,
    tokenSequence_inputSourceComment_iff]

section Tutorial

/-- A run over the module of one inference returns true. -/
theorem run_ofInference {defn : ASTInferenceDefn} {strict : Bool} (opts : Options)
    (wellFormed : (ASTModule.ofInference defn).WellFormed strict) :
    ∃ final, (run opts (fun _ => true) (.ofInference defn)).run {} = .ok (true, final) := by
  have idle := SynthesisContext.idle_initial 1 fun _ => none
  obtain ⟨final, completed, -⟩ := run_of_covered opts (fun _ => true) wellFormed idle (fun _ => rfl)
    fun group member _ _ _ _ _ => definesFixtures_ofInference member
  exact ⟨final, completed⟩

/-- The tutorial's inference under two plain paths. -/
theorem staticMethodStaticDispatch_annotations_iff : ∃ commented suppressed renamed : SynthesisContext,
    ((SameFiles commented.files suppressed.files ∧ SameFiles commented.files renamed.files) ↔
      (ASTModule.ofInference staticMethodStaticDispatch).inferenceGroups = [] ∨
        (HarmlessPath "SampleProject.sl" ∧ HarmlessPath "TypeRules.sl")) ∧
      SameFiles commented.files suppressed.files ∧ SameFiles commented.files renamed.files := by
  have wellFormed := (SemanticAnalyzer.visitModule_iff ⟨true, true⟩
    (.ofInference staticMethodStaticDispatch)).mp (by decide)
  let opts : Options := ⟨false, false, "", "./"⟩
  obtain ⟨commented, ran⟩ := run_ofInference (opts.annotating "SampleProject.sl") wellFormed
  obtain ⟨suppressed, ranSuppressed⟩ := run_ofInference opts.suppressing wellFormed
  obtain ⟨renamed, ranRenamed⟩ := run_ofInference (opts.annotating "TypeRules.sl") wellFormed
  have same := annotations_iff ⟨true, true, false⟩ opts "SampleProject.sl" "TypeRules.sl"
    parse_staticMethodStaticDispatch (by decide) (fun _ => true) 1 (fun _ => none) ran ranSuppressed
    ranRenamed
  exact ⟨commented, suppressed, renamed, same, same.mpr (.inr
    ⟨harmlessPath_of_noEnd (by decide), harmlessPath_of_noEnd (by decide)⟩)⟩

/-- The source may lie in a directory whose name ends in a star. -/
theorem starDirectory_annotated :
    ParserDriver.parseFromString (spaced (ASTModule.ofInference staticMethodStaticDispatch).tokens)
        false ⟨⟨[]⟩⟩ = (0, ⟨.ofInference staticMethodStaticDispatch⟩) ∧
      (SemanticAnalyzer.run ⟨true, true, false⟩ (.ofInference staticMethodStaticDispatch)).value = true ∧
      ∃ commented suppressed : SynthesisContext,
        (run ⟨false, false, "rules*/SampleProject.sl", "./"⟩ (fun _ => true)
          (.ofInference staticMethodStaticDispatch)).run {} = .ok (true, commented) ∧
        (run ⟨false, true, "rules*/SampleProject.sl", "./"⟩ (fun _ => true)
          (.ofInference staticMethodStaticDispatch)).run {} = .ok (true, suppressed) ∧
        ¬ SameFiles commented.files suppressed.files := by
  have accepted : (SemanticAnalyzer.run ⟨true, true, false⟩
      (.ofInference staticMethodStaticDispatch)).value = true := by decide
  have wellFormed := (SemanticAnalyzer.visitModule_iff ⟨true, true⟩ _).mp accepted
  have idle := SynthesisContext.idle_initial 1 fun _ => none
  obtain ⟨commented, ran⟩ := run_ofInference ⟨false, false, "rules*/SampleProject.sl", "./"⟩ wellFormed
  obtain ⟨suppressed, ranSuppressed⟩ :=
    run_ofInference ⟨false, true, "rules*/SampleProject.sl", "./"⟩ wellFormed
  refine ⟨parse_staticMethodStaticDispatch, accepted, commented, suppressed, ran, ranSuppressed, ?_⟩
  have isSpelled : ∀ group ∈ (ASTModule.ofInference staticMethodStaticDispatch).inferenceGroups,
      GroupSpelled group := fun group member =>
    groupSpelled_of_parsed parse_staticMethodStaticDispatch accepted member
      fun _ => definesFixtures_ofInference member
  rw [sameFiles_iff (by rfl) (by rfl) wellFormed idle isSpelled ran ranSuppressed]
  rintro (noGroup | comments)
  · cases noGroup
  · have harmless := (tokenSequence_inputSourceComment_iff "rules*/SampleProject.sl").mp
      (comments.trans (Lines.nil.tokenSequence.trans Cpp.lexemes_nil))
    exact absurd harmless (by decide)

end Tutorial

end Synthesizer

end Snowlake
