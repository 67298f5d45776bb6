import Snowlake.Cpp.Layout
import Snowlake.Synth.Annotations
import Snowlake.Synth.Grammatical
import Snowlake.Synth.Output

/-! # How a .cpp file is laid out

The indentation level is a number that hooks raise and lower; the text has the
braces.  Where the names are words each statement is a block at its level, and
so are the file around the statements and the walk that wrote it.
-/

namespace Snowlake

open Cpp (Neat Block LaidOut isPlain bracketRole)

namespace Emitted

open Synthesizer

/-! ## Neat text -/

theorem wordChar_neat {c : Char} (word : Cpp.isWordChar c = true) :
    isPlain c = true ∧ c ≠ '\n' ∧ bracketRole c = .neutral := by
  refine ⟨?_, ?_, ?_⟩
  · by_contra notPlain
    simp only [isPlain, Bool.and_eq_true, bne_iff_ne, ne_eq, not_and_or, not_not] at notPlain
    rcases notPlain with rfl | rfl <;> cases word
  · rintro rfl
    cases word
  · unfold bracketRole
    split <;> first | rfl | cases word

theorem neat_wordChars {text : List Char} (words : ∀ c ∈ text, Cpp.isWordChar c = true) : Neat text where
  plain c member := (wordChar_neat (words c member)).1
  oneLine member := (wordChar_neat (words _ member)).2.1 rfl
  balanced := .of_neutral fun c member => (wordChar_neat (words c member)).2.2

theorem wordChars {name : StringType} (word : MaximalMunch.Matches Cpp.wordPattern name.toList) :
    ∀ c ∈ name.toList, Cpp.isWordChar c = true := by
  cases text : name.toList with
  | nil => simp
  | cons first rest =>
      rw [text, Cpp.wordPattern, MaximalMunch.matches_run_cons_iff] at word
      exact List.forall_mem_cons.mpr ⟨Cpp.isWordChar_of_isLetter word.1, word.2⟩

theorem neat_word {name : StringType} (word : MaximalMunch.Matches Cpp.wordPattern name.toList) :
    Neat name.toList :=
  neat_wordChars (wordChars word)

theorem neat_numeral (n : Nat) : Neat (toString n).toList := by
  rw [Nat.toString_eq_repr, Nat.toList_repr]
  exact neat_wordChars fun c member => Cpp.isWordChar_of_isDigit (Lexer.isDigit_of_mem_toDigits member)

theorem neat_parens {inside : List Char} (neat : Neat inside) : Neat ('(' :: (inside ++ [')'])) :=
  neat.enclose rfl rfl

theorem neat_squares {inside : List Char} (neat : Neat inside) : Neat ('[' :: (inside ++ [']'])) :=
  neat.enclose rfl rfl

theorem neat_source {source : ASTIdentifiable} (meets : spelled.source source) :
    Neat (synthesizeIdentifiable source).toList := by
  obtain ⟨identifiers⟩ := source
  have words := meets.2
  rw [synthesizeIdentifiable]
  simp only at words ⊢
  induction identifiers with
  | nil => exact .nil
  | cons root members ih =>
      have isRoot := neat_word (words root List.mem_cons_self)
      cases members with
      | nil => exact isRoot
      | cons member others =>
          have later := ih
            ⟨List.cons_ne_nil _ _, fun name inRest => words name (List.mem_cons_of_mem _ inRest)⟩
            fun name inRest => words name (List.mem_cons_of_mem _ inRest)
          have dot : Neat ".".toList := .of_checks (by decide)
          simp only [synthesizeIdentifiable.go, String.toList_append]
          exact (isRoot.append dot).append later

theorem neat_separator : Neat ", ".toList := .of_checks (by decide)

theorem neat_semicolon : Neat ";".toList := .of_checks (by decide)

theorem neat_space : Neat " ".toList := .of_checks (by decide)

mutual
theorem neat_expr {expr : Expr} (meets : expr.Meets spelled) : Neat expr.render.toList := by
  cases expr with
  | ident name => exact neat_word meets
  | element name index =>
      have text := (neat_word meets).append (neat_squares (neat_numeral index.toNat))
      simpa [Expr.render] using text
  | deref name =>
      have star : Neat "*".toList := .of_checks (by decide)
      simpa [Expr.render] using star.append (neat_word meets)
  | call name arguments =>
      have text := (neat_word meets.1).append (neat_parens (neat_exprs meets.2))
      simpa [Expr.render] using text

theorem neat_exprs {exprs : List Expr} (meets : Expr.MeetsList spelled exprs) :
    Neat (Expr.renderList exprs).toList := by
  match exprs with
  | [] => exact .nil
  | [argument] => exact neat_expr meets.1
  | argument :: second :: others =>
      have text := ((neat_expr meets.1).append neat_separator).append (neat_exprs meets.2)
      simpa [Expr.renderList] using text
end

section Names

variable {names : Names}

theorem neat_declType (type : DeclType) (meets : spelled.callable names.typeCls) :
    Neat (type.render names).toList := by
  cases type with
  | typeClass => exact neat_word meets
  | vector =>
      have opened : Neat "std::vector<".toList := .of_checks (by decide)
      have closed : Neat ">".toList := .of_checks (by decide)
      simpa [DeclType.render] using (opened.append (neat_word meets)).append closed

theorem neat_init {init : Init} (meets : init.Meets spelled names) : Neat (init.render names).toList := by
  cases init with
  | proof source =>
      have text := (neat_word meets.1).append (neat_parens (neat_source meets.2))
      simpa [Init.render] using text
  | value expr => exact neat_expr meets

theorem neat_operand {operand : Operand} (meets : operand.Meets spelled) : Neat operand.render.toList := by
  obtain ⟨expr, counter⟩ := operand
  cases counter with
  | none => exact neat_expr meets.1
  | some counter =>
      have text := (neat_expr meets.1).append (neat_squares (neat_word (meets.2 counter rfl)))
      simpa [Operand.render] using text

theorem neat_functor {comparison : Comparison}
    (meets : comparison.oprt.isSome = true → spelled.callable names.typeCls) :
    Neat (comparison.functor names).toList := by
  obtain ⟨lhs, rhs, oprt⟩ := comparison
  cases oprt with
  | none =>
      have text : Neat "std::equal_to<>()".toList := .of_checks (by decide)
      exact text
  | some oprt =>
      have functor : Neat (equalityFunctor oprt ++ "<").toList := by
        cases oprt <;> exact .of_checks (by decide)
      have closed : Neat ">()".toList := .of_checks (by decide)
      have text := (functor.append (neat_word (meets rfl))).append closed
      simpa [Comparison.functor, synthesizeEqualityOperator] using text

theorem neat_comparison {comparison : Comparison} (meets : comparison.Meets spelled names) :
    Neat (comparison.render names).toList := by
  have operands := ((neat_operand meets.lhs).append neat_separator).append (neat_operand meets.rhs)
  have arguments := (operands.append neat_separator).append (neat_functor meets.typeCls)
  simpa [Comparison.render] using (neat_word meets.typeCmpMethod).append (neat_parens arguments)

/-! ## Statements -/

/-- A text that begins with a word stands where the line is indented to. -/
theorem starts_word {name : StringType} (word : MaximalMunch.Matches Cpp.wordPattern name.toList)
    (rest : List Char) :
    (name.toList ++ rest).head? ≠ some ' ' ∧ (name.toList ++ rest).head? ≠ some '\x7d' := by
  cases text : name.toList with
  | nil =>
      rw [text] at word
      have none := (MaximalMunch.matches_nil_iff _).mp word
      cases none
  | cons first rest' =>
      have first_word := wordChars word first (text ▸ List.mem_cons_self)
      simp only [List.cons_append, List.head?_cons, ne_eq, Option.some.injEq]
      constructor <;> rintro rfl <;> cases first_word

theorem block_fixture {method : StringType} {source : ASTIdentifiable} {target : Expr}
    (isMethod : spelled.callable method) (isSource : spelled.source source)
    (isTarget : target.Meets spelled) (level : Nat) :
    Block level (renderIndentation level ++ method ++ "(" ++ synthesizeIdentifiable source ++ ", " ++
      target.render ++ ");\n").toList := by
  have arguments := ((neat_source isSource).append neat_separator).append (neat_expr isTarget)
  have line := ((neat_word isMethod).append (neat_parens arguments)).append neat_semicolon
  have block := @Block.line level _ line (by
    rw [List.append_assoc]
    exact starts_word isMethod _)
  simpa [toList_renderIndentation] using block

theorem block_setError (value level : Nat) :
    Block level (Stmt.render names level (.setError value)).toList := by
  have star : Neat "*err".toList := .of_checks (by decide)
  have opened : Neat " = std::error_code".toList := .of_checks (by decide)
  have category : Neat ", inference_error_category".toList := .of_checks (by decide)
  have line := ((star.append opened).append (neat_parens ((neat_numeral value).append category))).append
    neat_semicolon
  have block := @Block.line level _ line (by simp)
  simpa [Stmt.render, toList_renderIndentation, defaultErrorOutputParameterName,
    globalErrorCategoryInstanceName] using block

theorem neat_ifHeader {comparison : Comparison} (meets : comparison.Meets spelled names) :
    Neat ("if ".toList ++ '(' :: ('!' :: (comparison.render names).toList ++ [')']) ++ " ".toList) := by
  have opened : Neat "if ".toList := .of_checks (by decide)
  have bang : Neat "!".toList := .of_checks (by decide)
  exact (opened.append (neat_parens (bang.append (neat_comparison meets)))).append neat_space

theorem neat_forHeader (lhsIdx rhsIdx : Nat) {bound : Expr} (meets : bound.Meets spelled) :
    Neat ("for ".toList ++ '(' :: ("size_t i = ".toList ++ (toString lhsIdx).toList ++
      ", size_t j = ".toList ++ (toString rhsIdx).toList ++ "; i < ".toList ++ bound.render.toList ++
      ".size(); ++i, ++j".toList ++ [')']) ++ " ".toList) := by
  have opened : Neat "for ".toList := .of_checks (by decide)
  have first : Neat "size_t i = ".toList := .of_checks (by decide)
  have second : Neat ", size_t j = ".toList := .of_checks (by decide)
  have condition : Neat "; i < ".toList := .of_checks (by decide)
  have steps : Neat ".size(); ++i, ++j".toList := .of_checks (by decide)
  have counters := ((first.append (neat_numeral lhsIdx)).append second).append (neat_numeral rhsIdx)
  have header := ((counters.append condition).append (neat_expr meets)).append steps
  exact (opened.append (neat_parens header)).append neat_space

mutual
/-- The lines of a statement are a block under as many braces as its level says. -/
theorem block_stmt {stmt : Stmt} (meets : stmt.Meets spelled names) (level : Nat) :
    Block level (stmt.render names level).toList := by
  cases stmt with
  | blank => simpa [Stmt.render] using @Block.blank level
  | comment text =>
      obtain ⟨body, starts, oneLine⟩ := meets
      have block := @Block.comment level body oneLine
      simpa [Stmt.render, toList_renderIndentation, starts] using block
  | declare type name init =>
      obtain ⟨isClass, isName, isInit⟩ := meets
      have assign : Neat " = ".toList := .of_checks (by decide)
      have declared := ((neat_declType type isClass).append neat_space).append (neat_word isName)
      have line := ((declared.append assign).append (neat_init isInit)).append neat_semicolon
      have block := @Block.line level _ line (by
        simp only [List.append_assoc]
        cases type with
        | typeClass => exact starts_word isClass _
        | vector => simp [DeclType.render])
      simpa [Stmt.render, toList_renderIndentation] using block
  | setup source target => exact block_fixture meets.1 meets.2.1 meets.2.2 level
  | teardown source target => exact block_fixture meets.1 meets.2.1 meets.2.2 level
  | ifNot comparison body =>
      have scope := Block.scope (neat_ifHeader meets.1) (by simp) (block_stmts meets.2 (level + 1))
      simpa [Stmt.render, toList_renderIndentation] using scope
  | forRange lhsIdx rhsIdx bound body =>
      obtain ⟨-, isBound, isBody⟩ := meets
      have scope := Block.scope (neat_forHeader lhsIdx.toNat rhsIdx.toNat isBound) (by simp)
        (block_stmts isBody (level + 1))
      simpa [Stmt.render, toList_renderIndentation] using scope
  | setError value => exact block_setError value level
  | returnDefault =>
      have opened : Neat "return ".toList := .of_checks (by decide)
      have line := ((opened.append (neat_word meets)).append (neat_parens .nil)).append neat_semicolon
      have block := @Block.line level _ line (by simp)
      simpa [Stmt.render, toList_renderIndentation] using block
  | returnValue value =>
      have opened : Neat "return ".toList := .of_checks (by decide)
      have line := (opened.append (neat_expr meets)).append neat_semicolon
      have block := @Block.line level _ line (by simp)
      simpa [Stmt.render, toList_renderIndentation] using block

theorem block_stmts {stmts : List Stmt} (meets : Stmt.MeetsList spelled names stmts) (level : Nat) :
    Block level (Stmt.renderList names level stmts).toList := by
  cases stmts with
  | nil => exact Block.nil
  | cons head tail =>
      rw [Stmt.renderList, String.toList_append]
      exact (block_stmt meets.1 level).append (block_stmts meets.2 level)
end

end Names

end Emitted

namespace Synthesizer

open Emitted

/-! ## Files -/

theorem wholeLines_renderCommentBlock (level : Nat) (text : String) :
    Cpp.WholeLines (renderCommentBlock level text).toList := by
  right
  simp only [renderCommentBlock, commentBlockEnd, String.toList_append, String.reduceToList]
  exact List.getLast?_append_of_ne_nil _ (by simp)

theorem block_commentBlock {text : String}
    (reads : Cpp.Reads (renderCommentBlock 0 text).toList [' ', '\n']) :
    Block 0 (renderCommentBlock 0 text).toList :=
  Block.outside (wholeLines_renderCommentBlock 0 text) reads (by simp [bracketRole])

variable (opts : Options)

/-- A path that does not contain the end of a comment stays in its comment. -/
theorem block_inputSource (noEnd : ¬ ['*', '/'] <:+: opts.inputFilepath.toList) :
    Block 0 (renderInputSourceAnnotationComment opts).toList := by
  rw [renderInputSourceAnnotationComment]
  split
  · exact Block.nil
  · have opened : Cpp.Mode.block.after "This file was synthesized from ".toList = .block ∧
        Cpp.Mode.block.kept "This file was synthesized from ".toList = [] := by decide
    obtain ⟨inside, silent⟩ := inBlock_annotatedPath noEnd
    refine block_commentBlock (reads_renderCommentBlock 0 ?_ ?_)
    · rw [snprintf_inputSource, Cpp.Mode.after_append, opened.1]
      exact inside
    · rw [snprintf_inputSource, Cpp.Mode.kept_append, opened.1, opened.2, silent, List.append_nil]

/-- A word in a text without slashes brings none. -/
theorem noSlash_around {name : StringType} (word : spelled.callable name) {before after : String}
    (left : '/' ∉ before.toList) (right : '/' ∉ after.toList) :
    '/' ∉ (before ++ cString name ++ after).toList := by
  simp only [String.toList_append, List.mem_append, left, right, or_false, false_or]
  intro slash
  have isWord := wordChars word _ (mem_of_mem_cString slash)
  cases isWord

theorem block_methodComment {name : StringType} (word : spelled.callable name) :
    Block 0 (renderInferenceDefinitionMethodAnnotationComment opts name 0).toList := by
  rw [renderInferenceDefinitionMethodAnnotationComment]
  split
  · exact Block.nil
  · refine block_commentBlock (reads_renderCommentBlock_of_noSlash 0 ?_)
    exact noSlash_around word (by simp) (by simp)

theorem block_include {name : String} (words : name.toList.all Cpp.isWordChar = true) :
    Block 0 (renderCustomInclude name).toList := by
  have isFile : ∀ c ∈ name.toList ++ ".h".toList,
      (c ≠ '"' ∧ c ≠ '\\' ∧ c ≠ '\n') ∧ bracketRole c = .neutral := by
    intro c member
    rcases List.mem_append.mp member with inName | isEnd
    · have word := List.all_eq_true.mp words c inName
      refine ⟨⟨?_, ?_, ?_⟩, (wordChar_neat word).2.2⟩ <;> rintro rfl <;> cases word
    · rcases List.mem_pair.mp isEnd with rfl | rfl <;> decide
  have isDirective : "#include ".toList.all (fun c => isPlain c && bracketRole c = .neutral) = true := by
    decide
  simp only [List.all_eq_true, Bool.and_eq_true, decide_eq_true_eq] at isDirective
  have reads := ((Cpp.reads_plain fun c member => (isDirective c member).1).append
    (Cpp.reads_string fun c member => (isFile c member).1)).append
      (@Cpp.reads_plain ['\n'] (by simp [isPlain]))
  have same : (renderCustomInclude name).toList =
      "#include ".toList ++ '"' :: (name.toList ++ ".h".toList ++ ['"']) ++ ['\n'] := by
    simp [renderCustomInclude]
  rw [same]
  refine Block.outside (.inr List.getLast?_concat) reads ?_
  intro c member
  rcases List.mem_append.mp member with inLine | isNewline
  · rcases List.mem_append.mp inLine with inDirective | quoted
    · exact (isDirective c inDirective).2
    · rcases List.mem_cons.mp quoted with rfl | inside
      · rfl
      · rcases List.mem_append.mp inside with inFile | isQuote
        · exact (isFile c inFile).2
        · obtain rfl := List.mem_singleton.mp isQuote
          rfl
  · obtain rfl := List.mem_singleton.mp isNewline
    rfl

theorem neat_argument {argument : ASTInferenceArgument} (isType : spelled.callable argument.typeName)
    (isName : spelled.object argument.name) :
    Neat ("const " ++ argument.typeName ++ "& " ++ argument.name).toList := by
  have const : Neat "const ".toList := .of_checks (by decide)
  have reference : Neat "& ".toList := .of_checks (by decide)
  have text := ((const.append (neat_word isType)).append reference).append (neat_word isName)
  simpa using text

/-- What a definition writes in its head are words. -/
structure HeadSpelled (defn : ASTInferenceDefn) : Prop where
  name : spelled.callable defn.name
  arguments : ∀ argument ∈ defn.arguments,
    spelled.callable argument.typeName ∧ spelled.object argument.name

theorem neat_argumentList (arguments : List ASTInferenceArgument)
    (isSpelled : ∀ argument ∈ arguments, spelled.callable argument.typeName ∧ spelled.object argument.name) :
    Neat (synthesizeArgumentList arguments).toList := by
  match arguments with
  | [] => exact .nil
  | [argument] =>
      obtain ⟨isType, isName⟩ := isSpelled argument (by simp)
      exact neat_argument isType isName
  | argument :: next :: rest =>
      obtain ⟨isType, isName⟩ := isSpelled argument (by simp)
      have later := neat_argumentList (next :: rest) fun other member =>
        isSpelled other (List.mem_cons_of_mem _ member)
      have text := ((neat_argument isType isName).append neat_separator).append later
      simpa [synthesizeArgumentList] using text

theorem neat_signature {clsName : StringType} {defn : ASTInferenceDefn}
    (isClass : spelled.callable clsName) (head : HeadSpelled defn) :
    Neat (clsName.toList ++ "::".toList ++ defn.name.toList ++
      '(' :: ((synthesizeArgumentList defn.arguments).toList ++ (if opts.useException then ""
        else ", std::error_code* " ++ defaultErrorOutputParameterName).toList ++ [')'])) := by
  have error : Neat (if opts.useException then ""
      else ", std::error_code* " ++ defaultErrorOutputParameterName).toList := by
    split
    · exact .nil
    · exact .of_checks (by decide)
  have scope : Neat "::".toList := .of_checks (by decide)
  have parameters := neat_parens ((neat_argumentList _ head.arguments).append error)
  exact (((neat_word isClass).append scope).append (neat_word head.name)).append parameters

/-- A function around its body: the head stands outside of the braces. -/
theorem block_function {typeCls clsName : StringType} {defn : ASTInferenceDefn}
    (isType : spelled.callable typeCls) (isClass : spelled.callable clsName) (head : HeadSpelled defn)
    {body : String} (block : Block 1 body.toList) :
    Block 0 (signatureText opts typeCls clsName defn ++ (body ++ "\x7d\n")).toList := by
  have first := @Block.line 0 _ (neat_word isType) (by simpa using starts_word isType [])
  have second := @Block.line 0 _ (neat_signature opts isClass head) (by
    simp only [List.append_assoc]
    exact starts_word isClass _)
  have braces := @Block.scope 0 [] _ .nil (by simp) block
  simpa [signatureText] using first.append (second.append braces)

theorem block_definition {names : Names} {clsName : StringType} {defn : ASTInferenceDefn}
    (isClass : spelled.callable clsName) (isType : spelled.callable names.typeCls)
    (head : HeadSpelled defn) (meets : defn.Meets spelled names) (nameId : UInt32) :
    Block 0 (definitionText opts names clsName defn nameId).toList := by
  have body : Block 1 (bodyText opts names defn nameId).toList :=
    block_stmts ((meetsList_bodyStmts_iff opts own_spelled defn nameId).mpr meets) 1
  have function := block_function opts isType isClass head body
  rw [definitionText_eq, String.toList_append, String.toList_append]
  exact Block.blank.append ((block_methodComment opts head.name).append function)

theorem block_definitions {names : Names} {clsName : StringType} (isClass : spelled.callable clsName)
    (isType : spelled.callable names.typeCls) (defns : List ASTInferenceDefn)
    (isSpelled : ∀ defn ∈ defns, HeadSpelled defn ∧ defn.Meets spelled names) (nameId : UInt32) :
    Block 0 (definitionsText opts names clsName defns nameId).toList := by
  induction defns generalizing nameId with
  | nil => exact Block.nil
  | cons defn rest ih =>
      obtain ⟨head, meets⟩ := isSpelled defn List.mem_cons_self
      rw [definitionsText, String.toList_append]
      exact (block_definition opts isClass isType head meets nameId).append
        (ih (fun other member => isSpelled other (List.mem_cons_of_mem _ member)) _)

theorem block_cppPreamble {clsName : StringType} (isClass : spelled.callable clsName)
    (noEnd : ¬ ['*', '/'] <:+: opts.inputFilepath.toList) :
    Block 0 (cppPreamble opts clsName).toList := by
  have kept : Cpp.Mode.code.kept (authoringCommentBlock ++ "\n\n").toList = [' ', '\n', '\n'] := by decide
  have authoring : Block 0 (authoringCommentBlock ++ "\n\n").toList :=
    Block.outside (.inr (by decide)) ⟨by decide, kept⟩ (by simp [bracketRole])
  have included := block_include
    (List.all_eq_true.mpr fun c member => wordChars isClass c (mem_of_mem_cString member))
  have errors := @block_include errorCodeHeaderFilenameBase (by decide)
  have text := (authoring.append ((block_inputSource opts noEnd).append Block.blank)).append
    (included.append errors)
  simpa [cppPreamble] using text

/-- The names that a group writes are words. -/
structure GroupSpelled (group : ASTInferenceGroup) : Prop where
  clsName : spelled.callable group.clsName
  typeCls : spelled.callable group.names.typeCls
  definitions : ∀ defn ∈ group.inferenceDefns, HeadSpelled defn ∧ defn.Meets spelled group.names

/-- The .cpp file of a group is laid out. -/
theorem laidOut_cppText {group : ASTInferenceGroup} (isSpelled : GroupSpelled group)
    (noEnd : ¬ ['*', '/'] <:+: opts.inputFilepath.toList) (nameId : UInt32) :
    LaidOut (cppText opts group nameId).toList := by
  rw [cppText, String.toList_append]
  exact ((block_cppPreamble opts isSpelled.clsName noEnd).append
    (block_definitions opts isSpelled.clsName isSpelled.typeCls _ isSpelled.definitions nameId)).laidOut

/-- The names of a group of an accepted module that comes from a text. -/
theorem groupSpelled_of_parsed {semaOpts : SemanticAnalyzer.Options} {input : List Char} {erange : Bool}
    {driver : ParserDriver} {module : ASTModule}
    (parsed : driver.parseFromString input erange = (0, ⟨module⟩))
    (accepted : (SemanticAnalyzer.run semaOpts module).value = true)
    {group : ASTInferenceGroup} (member : group ∈ module.inferenceGroups)
    (covered : group.UsesWhileClause → group.DefinesFixtures) : GroupSpelled group := by
  have wellFormed := ((SemanticAnalyzer.visitModule_iff semaOpts.policy module).mp accepted).groups
    group member
  obtain ⟨read, derived, same⟩ := Parser.parse_eq_zero_iff.mp parsed
  obtain rfl : module = read := congrArg ParserDriver.module same
  have identifiers {name : StringType} (stored : .identifier name ∈ (Lexer.yylex input erange).1) :
      spelled.callable name := Lexer.matches_of_mem_yylex stored
  have named := input_named derived group member
  have environment {key : StringType} (defined : key ∈ group.fields) :
      spelled.callable (group.environment key) := by
    obtain ⟨envnDefn, inGroup, sameValue⟩ := group.environment_of_mem defined
    exact sameValue ▸ identifiers (named.values envnDefn inGroup)
  refine ⟨environment wellFormed.className, environment wellFormed.typeClass, ?_⟩
  intro defn inGroup
  have head := input_headNamed derived group member defn inGroup
  refine ⟨⟨identifiers head.name, fun argument inHead => ?_⟩, ?_⟩
  · exact ⟨identifiers (head.arguments argument inHead).1, identifiers (head.arguments argument inHead).2⟩
  · exact meets_spelled (fun name stored => identifiers stored) named wellFormed inGroup
      fun premise inDefn holds =>
        covered (group.usesWhileClause_iff.mpr ⟨defn, inGroup, premise, inDefn, holds⟩)

/-! ## The error code file -/

theorem toList_append_of_eq {first second : String} {chars chars' : List Char}
    (left : first.toList = chars) (right : second.toList = chars') :
    (first ++ second).toList = chars ++ chars' := by
  rw [String.toList_append, left, right]

theorem exists_errorCodeCppText : ∃ chars, errorCodeCppText.toList = chars ∧
    Cpp.checksWithLabels chars = true ∧ Cpp.misplacedAt 441 chars = true := by
  apply Exists.intro
  constructor
  · unfold errorCodeCppText authoringCommentBlock renderCustomInclude errorCodeHeaderFilenameBase
      renderIncludes customErrorCategoryDefinition String.join
    simp only [List.map_cons, List.map_nil, List.foldl_cons, List.foldl_nil]
    -- The characters are those of the literals, one after the other.
    repeat' first | with_reducible apply toList_append_of_eq | exact String.toList_ofList
  · constructor <;> decide +kernel

/-- What a `switch` chooses stands behind its label, four spaces to the right. -/
theorem laidOutWithLabels_errorCodeCppText : Cpp.LaidOutWithLabels errorCodeCppText.toList := by
  obtain ⟨chars, same, checked, -⟩ := exists_errorCodeCppText
  rw [same]
  exact Cpp.laidOutWithLabels_of_checks checked

/-- The braces alone do not tell where those lines stand. -/
theorem not_laidOut_errorCodeCppText : ¬ LaidOut errorCodeCppText.toList := by
  obtain ⟨chars, same, -, misplaced⟩ := exists_errorCodeCppText
  rw [same]
  exact Cpp.not_laidOut_of_misplacedAt misplaced

/-! ## Runs -/

/-- What a walk over a module has come to between two groups, or in a group
between two of its inference definitions. -/
inductive Boundary (opens : String → Bool) (module : ASTModule) (start : SynthesisContext) :
    SynthesisContext → Prop
  | group {before after context} : module.inferenceGroups = before ++ after →
      (ASTVisitor.visitAll (visitor opts opens).visitInferenceGroup before).run start =
        .ok (true, context) → Boundary opens module start context
  | inference {before group after first later begun entered context} :
      module.inferenceGroups = before ++ group :: after → group.inferenceDefns = first ++ later →
      (ASTVisitor.visitAll (visitor opts opens).visitInferenceGroup before).run start =
        .ok (true, begun) →
      (previsitInferenceGroup opts opens group).run begun = .ok (true, entered) →
      (ASTVisitor.visitAll (visitor opts opens).visitInferenceDefn first).run entered =
        .ok (true, context) → Boundary opens module start context

/-- A run ends well, the .cpp files of its groups are laid out, that of the error
codes is as is asked, and between groups and definitions nothing is indented. -/
structure OrderlyRun (errorFile : String → Prop) (opens : String → Bool) (module : ASTModule)
    (context : SynthesisContext) : Prop where
  files : ∃ final, (run opts opens module).run context = .ok (true, final) ∧
    (∀ group ∈ module.inferenceGroups, ∃ text,
      final.files (cppFilepath opts group) = some text ∧ LaidOut text.toList) ∧
    ∃ text, final.files (outputFilepath opts errorCodeCppFilename) = some text ∧ errorFile text
  levels : ∀ start, (initializeAndSynthesizeErrorCodeFiles opts opens).run context = .ok (true, start) →
    ∀ boundary, Boundary opts opens module start boundary →
      boundary.cppFileIndentLvl = 0 ∧ boundary.headerFileIndentLvl = 0

theorem mem_groupsFiles {groups : List ASTInferenceGroup} {nameId : UInt32} {write : String × Option String}
    (member : write ∈ groupsFiles opts groups nameId) :
    ∃ group ∈ groups, ∃ nameId', write ∈ groupFiles opts group nameId' := by
  induction groups generalizing nameId with
  | nil => cases member
  | cons group rest ih =>
      rw [groupsFiles, List.mem_append] at member
      rcases member with here | later
      · exact ⟨group, List.mem_cons_self, nameId, here⟩
      · obtain ⟨group', inRest, found⟩ := ih later
        exact ⟨group', List.mem_cons_of_mem _ inRest, found⟩

section Runs

variable {opens : String → Bool} {module : ASTModule} {strict : Bool} {context : SynthesisContext}

/-- What is written to a .cpp file by a group is the .cpp text of a group. -/
theorem cppText_of_mem {groups : List ASTInferenceGroup} {nameId : UInt32} {name : String}
    {value : Option String} (member : (outputFilepath opts (name ++ ".cpp"), value) ∈
      groupsFiles opts groups nameId) :
    ∃ group ∈ groups, ∃ nameId', value = some (cppText opts group nameId') := by
  obtain ⟨group, inGroups, nameId', written⟩ := mem_groupsFiles opts member
  simp only [groupFiles, List.mem_cons, List.not_mem_nil, or_false, Prod.mk.injEq] at written
  rcases written with ⟨samePath, -⟩ | ⟨-, sameText⟩
  · rw [outputFilepath_inj] at samePath
    exact absurd samePath.symm (header_ne_cpp _ _)
  · exact ⟨group, inGroups, nameId', sameText⟩

theorem boundary_levels (wellFormed : module.WellFormed strict) (idle : context.Idle)
    (allOpen : ∀ path, opens path = true)
    (fixtures : ∀ group ∈ module.inferenceGroups, group.DefinesFixtures) {boundary : SynthesisContext}
    (passed : Boundary opts opens module context boundary) :
    boundary.cppFileIndentLvl = 0 ∧ boundary.headerFileIndentLvl = 0 := by
  have walked {before after : List ASTInferenceGroup} (split : module.inferenceGroups = before ++ after)
      {reached : SynthesisContext} (ran : (ASTVisitor.visitAll (visitor opts opens).visitInferenceGroup
        before).run context = .ok (true, reached)) : reached.Idle := by
    have inModule : ∀ group ∈ before, group ∈ module.inferenceGroups := by
      intro group member
      rw [split]
      exact List.mem_append_left _ member
    rw [visitInferenceGroups_run opts opens before (fun group member =>
      wellFormed.groups group (inModule group member)) idle allOpen fun group member _ _ _ _ _ =>
        fixtures group (inModule group member)] at ran
    cases ran
    exact synthesizeGroups_idle opts idle before
  cases passed with
  | group split ran =>
      have reached := walked split ran
      exact ⟨reached.cppFileIndentLvl, reached.headerFileIndentLvl⟩
  | @inference before group after first later begun entered _ split defns ran opened visited =>
      have reached := walked split ran
      have member : group ∈ module.inferenceGroups := by
        rw [split]
        exact List.mem_append_right _ List.mem_cons_self
      rw [previsitInferenceGroup_run opts opens (wellFormed.groups group member) reached (allOpen _)
        (allOpen _)] at opened
      cases opened
      rw [visitInferenceDefns_run opts opens first
        (openGroup_serves opts (wellFormed.groups group member) reached) reached.headerFileIndentLvl
        reached.numPremisesProcessed fun _ _ _ _ _ => fixtures group member] at visited
      cases visited
      exact ⟨reached.cppFileIndentLvl, reached.headerFileIndentLvl⟩

theorem writeErrorCodeFiles_cpp (context : SynthesisContext) :
    (writeErrorCodeFiles opts context).files (outputFilepath opts errorCodeCppFilename) =
      some errorCodeCppText :=
  Function.update_self ..

/-- The .cpp files of a run: each holds the text of a group or of the error codes. -/
theorem cppFiles_of_run (wellFormed : module.WellFormed strict) (idle : context.Idle)
    (allOpen : ∀ path, opens path = true)
    (fixtures : ∀ group ∈ module.inferenceGroups, group.DefinesFixtures) :
    ∃ final, (run opts opens module).run context = .ok (true, final) ∧
      (∀ group ∈ module.inferenceGroups, ∃ source ∈ module.inferenceGroups, ∃ nameId,
        final.files (cppFilepath opts group) = some (cppText opts source nameId)) ∧
      (final.files (outputFilepath opts errorCodeCppFilename) = some errorCodeCppText ∨
        ∃ source ∈ module.inferenceGroups, ∃ nameId,
          final.files (outputFilepath opts errorCodeCppFilename) = some (cppText opts source nameId)) := by
  obtain ⟨final, completed, written⟩ := run_of_covered opts opens wellFormed idle allOpen
    fun group member _ _ _ _ _ => fixtures group member
  rw [synthesizeGroups_files] at written
  refine ⟨final, completed, ?_, ?_⟩
  · intro group member
    have path : cppFilepath opts group ∈
        (groupsFiles opts module.inferenceGroups (writeErrorCodeFiles opts context).nameId).map (·.1) := by
      rw [groupsFiles_paths, List.mem_flatMap]
      exact ⟨group.clsName, List.mem_map_of_mem member, by simp [filepaths]⟩
    rw [written]
    exact cppText_of_mem opts (Writes.writeAll_mem path _)
  · rw [written]
    by_cases path : outputFilepath opts errorCodeCppFilename ∈
        (groupsFiles opts module.inferenceGroups (writeErrorCodeFiles opts context).nameId).map (·.1)
    · right
      exact @cppText_of_mem opts _ _ errorCodeHeaderFilenameBase _ (Writes.writeAll_mem path _)
    · left
      rw [Writes.writeAll_of_notMem path, writeErrorCodeFiles_cpp]

end Runs

/-- The file of the error codes is laid out, but for what its labels shift. -/
def ErrorFileLaidOut (text : String) : Prop :=
  LaidOut text.toList ∨ text = errorCodeCppText ∧ Cpp.LaidOutWithLabels text.toList

/-- A run over an accepted module that comes from a text is orderly. -/
theorem orderlyRun_of_parsed (semaOpts : SemanticAnalyzer.Options) (opts : Options)
    {input : List Char} {erange : Bool} {driver : ParserDriver} {module : ASTModule}
    (parsed : driver.parseFromString input erange = (0, ⟨module⟩))
    (accepted : (SemanticAnalyzer.run semaOpts module).value = true)
    (fixtures : ∀ group ∈ module.inferenceGroups, group.DefinesFixtures)
    (opens : String → Bool) (allOpen : ∀ path, opens path = true)
    (noEnd : ¬ ['*', '/'] <:+: opts.inputFilepath.toList)
    (incrementalInt : UInt64) (files : String → Option String) :
    OrderlyRun opts ErrorFileLaidOut opens module { incrementalInt := incrementalInt, files := files } := by
  have wellFormed := (SemanticAnalyzer.visitModule_iff semaOpts.policy module).mp accepted
  have idle := SynthesisContext.idle_initial incrementalInt files
  have laidOut : ∀ group ∈ module.inferenceGroups, ∀ nameId, LaidOut (cppText opts group nameId).toList :=
    fun group member => laidOut_cppText opts
      (groupSpelled_of_parsed parsed accepted member fun _ => fixtures group member) noEnd
  refine ⟨?_, ?_⟩
  · obtain ⟨final, completed, groups, errors⟩ := cppFiles_of_run opts wellFormed idle allOpen fixtures
    refine ⟨final, completed, ?_, ?_⟩
    · intro group member
      obtain ⟨source, inModule, nameId, holds⟩ := groups group member
      exact ⟨_, holds, laidOut source inModule nameId⟩
    · rcases errors with holds | ⟨source, inModule, nameId, holds⟩
      · exact ⟨_, holds, .inr ⟨rfl, laidOutWithLabels_errorCodeCppText⟩⟩
      · exact ⟨_, holds, .inl (laidOut source inModule nameId)⟩
  · intro start initialized boundary passed
    rw [initializeAndSynthesizeErrorCodeFiles_run opts opens allOpen] at initialized
    cases initialized
    exact boundary_levels opts wellFormed (writeErrorCodeFiles_idle opts idle) allOpen fixtures passed

/-- The tutorial's inference, with a plain path. -/
theorem orderlyRun_staticMethodStaticDispatch :
    OrderlyRun ⟨false, false, "SampleProject.sl", "./"⟩ ErrorFileLaidOut (fun _ => true)
      (.ofInference staticMethodStaticDispatch) {} :=
  orderlyRun_of_parsed ⟨true, true, false⟩ _ parse_staticMethodStaticDispatch (by decide)
    (fun _ => definesFixtures_ofInference) _ (fun _ => rfl) (by decide) 1 fun _ => none

/-- In its run the file of the error codes has lines farther to the right than
the braces around them ask for. -/
theorem staticMethodStaticDispatch_errorFile :
    ParserDriver.parseFromString (spaced (ASTModule.ofInference staticMethodStaticDispatch).tokens)
        false ⟨⟨[]⟩⟩ = (0, ⟨.ofInference staticMethodStaticDispatch⟩) ∧
      (SemanticAnalyzer.run ⟨true, true, false⟩ (.ofInference staticMethodStaticDispatch)).value = true ∧
      (∀ group ∈ (ASTModule.ofInference staticMethodStaticDispatch).inferenceGroups,
        group.DefinesFixtures) ∧
      ¬ ['*', '/'] <:+: "SampleProject.sl".toList ∧
      ¬ OrderlyRun ⟨false, false, "SampleProject.sl", "./"⟩ (fun text => LaidOut text.toList)
        (fun _ => true) (.ofInference staticMethodStaticDispatch) {} := by
  have accepted : (SemanticAnalyzer.run ⟨true, true, false⟩
      (.ofInference staticMethodStaticDispatch)).value = true := by decide
  refine ⟨parse_staticMethodStaticDispatch, accepted, fun _ => definesFixtures_ofInference, by decide, ?_⟩
  rintro ⟨⟨final, completed, -, text, holds, laidOut⟩, -⟩
  have wellFormed := (SemanticAnalyzer.visitModule_iff _ _).mp accepted
  have idle := SynthesisContext.idle_initial 1 fun _ => none
  obtain ⟨final', completed', written⟩ := run_of_covered ⟨false, false, "SampleProject.sl", "./"⟩
    (fun _ => true) wellFormed idle (fun _ => rfl)
    fun group member _ _ _ _ _ => definesFixtures_ofInference member
  obtain ⟨-, rfl⟩ := Prod.mk.inj (Except.ok.inj (completed.symm.trans completed'))
  rw [synthesizeGroups_files] at written
  rw [written, Writes.writeAll_of_notMem (by rw [groupsFiles_paths]; decide),
    writeErrorCodeFiles_cpp] at holds
  cases holds
  exact not_laidOut_errorCodeCppText laidOut

end Synthesizer

end Snowlake
