import Snowlake.Synth.Tokens

/-! # The emitted statements and the grammar

A list of emitted statements is derivable exactly if it has no loop and every
name in it may stand where it does: variables and members are identifiers, what
is called or declares a variable is an identifier or a keyword for a type.
-/

namespace Snowlake

namespace Emitted

open Cpp (Expression Arguments ExpressionList Statement Statements TypeName)

def IsCppIdentifier (name : StringType) : Prop := wordToken name = .identifier

def IsCppTypeOrIdentifier (name : StringType) : Prop :=
  wordToken name = .identifier ∨ wordToken name = .typeKeyword

/-- What the grammar asks of names.  It has no place for the header of a loop. -/
def grammatical : Demand where
  object := IsCppIdentifier
  callable := IsCppTypeOrIdentifier
  source source := ∀ name ∈ source.identifiers, IsCppIdentifier name
  comment _ := True
  loop := False

/-! ## Derivations -/

theorem expression_object {name : StringType} (isObject : IsCppIdentifier name) :
    Expression [wordToken name] := by
  rw [isObject]
  exact .name .name

theorem typeName_callable {name : StringType} (isCallable : IsCppTypeOrIdentifier name) :
    TypeName [wordToken name] := by
  rcases isCallable with same | same <;> rw [same]
  · exact .name .name
  · exact .keyword

theorem expression_call {name : StringType} (isCallable : IsCppTypeOrIdentifier name)
    {arguments : List Cpp.Token} (areArguments : Arguments arguments) :
    Expression (wordToken name :: .lparen :: (arguments ++ [.rparen])) :=
  .construct (typeName_callable isCallable) areArguments

mutual
theorem expression_tokens {expr : Expr} (meets : expr.Meets grammatical) : Expression expr.tokens := by
  cases expr with
  | ident name => exact expression_object meets
  | element name index => exact .element (expression_object meets) .number
  | deref name => exact .deref (expression_object meets)
  | call name arguments =>
      cases arguments with
      | nil => exact expression_call meets.1 .none
      | cons argument rest =>
          exact expression_call meets.1 (.some (expressionList_tokens (List.cons_ne_nil _ _) meets.2))

theorem expressionList_tokens {exprs : List Expr} (nonempty : exprs ≠ [])
    (meets : Expr.MeetsList grammatical exprs) : ExpressionList (Expr.tokensList exprs) := by
  match exprs with
  | [] => exact absurd rfl nonempty
  | [argument] => exact .one (expression_tokens meets.1)
  | argument :: second :: rest =>
      exact .cons (expression_tokens meets.1)
        (expressionList_tokens (List.cons_ne_nil second rest) meets.2)
end

theorem sourceTokens_cons (root : ASTIdentifier) (members : List ASTIdentifier) :
    sourceTokens (root :: members) =
      wordToken root :: members.flatMap fun name => [.dot, wordToken name] := by
  induction members generalizing root with
  | nil => rfl
  | cons member rest ih => exact congrArg (fun tokens => wordToken root :: .dot :: tokens) (ih member)

theorem expression_members {object : List Cpp.Token} (isObject : Expression object)
    (members : List ASTIdentifier) (meets : ∀ name ∈ members, IsCppIdentifier name) :
    Expression (object ++ members.flatMap fun name => [.dot, wordToken name]) := by
  induction members generalizing object with
  | nil => simpa using isObject
  | cons member rest ih =>
      have isMember : wordToken member = .identifier := meets member List.mem_cons_self
      rw [List.flatMap_cons, ← List.append_assoc, isMember]
      exact ih isObject.member fun name inRest => meets name (List.mem_cons_of_mem _ inRest)

theorem expression_source {source : ASTIdentifiable} (nonempty : source.identifiers ≠ [])
    (meets : grammatical.source source) : Expression (sourceTokens source.identifiers) := by
  obtain ⟨identifiers⟩ := source
  cases identifiers with
  | nil => exact absurd rfl nonempty
  | cons root members =>
      rw [sourceTokens_cons]
      exact expression_members (expression_object (meets root List.mem_cons_self)) members
        fun name inRest => meets name (List.mem_cons_of_mem _ inRest)

section Names

variable {names : Names}

theorem expression_init {init : Init} (isSpelled : init.Meets spelled names)
    (meets : init.Meets grammatical names) : Expression (init.tokens names) := by
  cases init with
  | proof source =>
      exact expression_call meets.1 (.some (.one (expression_source isSpelled.2.1 meets.2)))
  | value expr => exact expression_tokens meets

theorem typeName_tokens {type : DeclType} (meets : IsCppTypeOrIdentifier names.typeCls) :
    TypeName (type.tokens names) := by
  cases type with
  | typeClass => exact typeName_callable meets
  | vector => exact .templateOf (.nested .name) (typeName_callable meets)

theorem expression_operand {operand : Operand} (meets : operand.Meets grammatical) :
    Expression operand.tokens := by
  obtain ⟨expr, counter⟩ := operand
  cases counter with
  | none => exact expression_tokens meets.1
  | some counter => exact .element (expression_tokens meets.1) (expression_object (meets.2 counter rfl))

theorem expression_functor {comparison : Comparison} (meets : comparison.Meets grammatical names) :
    Expression (comparison.functorTokens names) := by
  obtain ⟨lhs, rhs, oprt⟩ := comparison
  cases oprt with
  | none => exact .construct (.template (.nested .name)) .none
  | some oprt =>
      exact .construct (.templateOf (.nested .name) (typeName_callable (meets.typeCls rfl))) .none

theorem expression_comparison {comparison : Comparison} (meets : comparison.Meets grammatical names) :
    Expression (comparison.tokens names) := by
  have arguments := ExpressionList.cons (expression_operand meets.lhs)
    (.cons (expression_operand meets.rhs) (.one (expression_functor meets)))
  simpa [Comparison.tokens] using expression_call meets.typeCmpMethod (.some arguments)

theorem statement_fixture {method : StringType} {source : ASTIdentifiable} {target : Expr}
    (isSource : spelled.source source) (isMethod : IsCppTypeOrIdentifier method)
    (meets : grammatical.source source) (isTarget : target.Meets grammatical) :
    Statement (fixtureTokens method source target) := by
  have arguments := ExpressionList.cons (expression_source isSource.1 meets)
    (.one (expression_tokens isTarget))
  simpa [fixtureTokens] using Statement.expression (expression_call isMethod (.some arguments))

mutual
/-- The tokens of an emitted statement are statements: one, or none for a blank
line or a comment. -/
theorem statements_tokens {stmt : Stmt} (isSpelled : stmt.Meets spelled names)
    (meets : stmt.Meets grammatical names) : Statements (stmt.tokens names) := by
  cases stmt with
  | blank | comment => exact .nil
  | declare type name init =>
      obtain ⟨isType, isName, isInit⟩ := meets
      have isName : wordToken name = .identifier := isName
      have initializer := expression_init isSpelled.2.2 isInit
      simp only [Stmt.tokens, isName]
      exact .single (.declaration (typeName_tokens isType) (.one initializer))
  | setup source target | teardown source target =>
      exact .single (statement_fixture isSpelled.2.1 meets.1 meets.2.1 meets.2.2)
  | ifNot comparison body =>
      have condition := (expression_comparison meets.1).not
      exact .single (.ifThen condition (statements_tokensList isSpelled.2 meets.2))
  | forRange => exact absurd meets.1 id
  | setError value =>
      have category := Expression.construct (.name (.nested .name))
        (.some (.cons .number (.one (.name .name))))
      exact .single (.assignment (.deref (.name .name)) category)
  | returnDefault => exact .single (.returnValue (expression_call meets .none))
  | returnValue value => exact .single (.returnValue (expression_tokens meets))

theorem statements_tokensList {stmts : List Stmt} (isSpelled : Stmt.MeetsList spelled names stmts)
    (meets : Stmt.MeetsList grammatical names stmts) : Statements (Stmt.tokensList names stmts) := by
  cases stmts with
  | nil => exact .nil
  | cons head tail =>
      exact (statements_tokens isSpelled.1 meets.1).append (statements_tokensList isSpelled.2 meets.2)
end

end Names

/-! ## Rejections

A name out of place stops the recogniser where it stands, whatever follows.
-/

open Cpp (run State)

/-- The tokens that a word can be. -/
def words : List Cpp.Token :=
  [.identifier, .typeKeyword, .keywordIf, .keywordFor, .keywordReturn, .other]

theorem wordToken_mem_words (name : StringType) : wordToken name ∈ words := by
  unfold wordToken Cpp.classify
  split_ifs <;> decide

section Run

variable {name : StringType} {next : Cpp.Token} {first rest : List Cpp.Token} {state final : State}

/-- The recogniser passes a word only if the word is wanted in front of what follows. -/
theorem word_of_run {wanted : List Cpp.Token}
    (rejects : ∀ word ∈ words, word ∉ wanted → run state (word :: first) = none)
    (ran : run state (wordToken name :: (first ++ rest)) = some final) : wordToken name ∈ wanted := by
  by_contra unwanted
  have stuck := Cpp.run_append_of_stuck (rejects _ (wordToken_mem_words name) unwanted) rest
  have same := stuck.symm.trans ran
  cases same

theorem identifier_of_run
    (rejects : ∀ word ∈ words, word ∉ [.identifier] → run state (word :: first) = none)
    (ran : run state (wordToken name :: (first ++ rest)) = some final) : IsCppIdentifier name :=
  List.mem_singleton.mp (word_of_run rejects ran)

theorem typeOrIdentifier_of_run
    (rejects : ∀ word ∈ words, word ∉ [.identifier, .typeKeyword] → run state (word :: first) = none)
    (ran : run state (wordToken name :: (first ++ rest)) = some final) :
    IsCppTypeOrIdentifier name := by
  have wanted := word_of_run rejects ran
  simp only [List.mem_cons, List.not_mem_nil, or_false] at wanted
  exact wanted

/-- The tokens that stand behind operands in emitted statements. -/
def afterOperand : List Cpp.Token := [.comma, .rparen, .lbracket, .rbracket, .semicolon, .dot]

theorem object_of_run (name : StringType) (behind : next ∈ afterOperand)
    (ran : run .expecting (wordToken name :: next :: rest) = some final) :
    IsCppIdentifier name ∧ run .after (next :: rest) = some final := by
  have rejects : ∀ next ∈ afterOperand, ∀ word ∈ words, word ∉ [.identifier] →
      run .expecting [word, next] = none := by decide
  have same : wordToken name = .identifier := identifier_of_run (rejects next behind) ran
  rw [same] at ran
  exact ⟨same, ran⟩

theorem callable_of_run (name : StringType)
    (ran : run .expecting (wordToken name :: .lparen :: rest) = some final) :
    IsCppTypeOrIdentifier name ∧ run .expecting rest = some final := by
  have rejects : ∀ word ∈ words, word ∉ [.identifier, .typeKeyword] →
      run .expecting [word, .lparen] = none := by decide
  have isCallable : IsCppTypeOrIdentifier name := typeOrIdentifier_of_run rejects ran
  refine ⟨isCallable, ?_⟩
  rcases isCallable with same | same <;> rw [same] at ran <;> exact ran

theorem typeArgument_of_run (name : StringType)
    (ran : run .expecting (wordToken name :: .greater :: rest) = some final) :
    IsCppTypeOrIdentifier name ∧ run .closeAngle rest = some final := by
  have rejects : ∀ word ∈ words, word ∉ [.identifier, .typeKeyword] →
      run .expecting [word, .greater] = none := by decide
  have isType : IsCppTypeOrIdentifier name := typeOrIdentifier_of_run rejects ran
  refine ⟨isType, ?_⟩
  rcases isType with same | same <;> rw [same] at ran <;> exact ran

mutual
theorem expr_of_run {expr : Expr} {next : Cpp.Token} {rest : List Cpp.Token} (behind : next ∈ afterOperand)
    (ran : run .expecting (expr.tokens ++ next :: rest) = some final) :
    expr.Meets grammatical ∧ run .after (next :: rest) = some final := by
  cases expr with
  | ident name => exact object_of_run _ behind ran
  | element name index =>
      obtain ⟨isObject, ran⟩ := object_of_run _ (by decide) ran
      exact ⟨isObject, ran⟩
  | deref name =>
      obtain ⟨isObject, ran⟩ := object_of_run _ behind ran
      exact ⟨isObject, ran⟩
  | call name arguments =>
      simp only [Expr.tokens, List.cons_append, List.append_assoc, List.nil_append] at ran
      obtain ⟨isCallable, ran⟩ := callable_of_run _ ran
      obtain ⟨areArguments, ran⟩ := exprs_of_run _ ran
      exact ⟨⟨isCallable, areArguments⟩, ran⟩

theorem exprs_of_run (exprs : List Expr) {rest : List Cpp.Token}
    (ran : run .expecting (Expr.tokensList exprs ++ .rparen :: rest) = some final) :
    Expr.MeetsList grammatical exprs ∧ run .after rest = some final := by
  match exprs with
  | [] => exact ⟨trivial, ran⟩
  | [argument] =>
      obtain ⟨isArgument, ran⟩ := expr_of_run (by decide) ran
      exact ⟨⟨isArgument, trivial⟩, ran⟩
  | argument :: second :: others =>
      simp only [Expr.tokensList, List.append_assoc, List.cons_append] at ran
      obtain ⟨isArgument, ran⟩ := expr_of_run (by decide) ran
      obtain ⟨areOthers, ran⟩ := exprs_of_run (second :: others) ran
      exact ⟨⟨isArgument, areOthers⟩, ran⟩
end

theorem source_of_run {identifiers : List ASTIdentifier} (behind : next = .rparen ∨ next = .comma)
    (ran : run .expecting (sourceTokens identifiers ++ next :: rest) = some final) :
    (∀ name ∈ identifiers, IsCppIdentifier name) ∧ run .after (next :: rest) = some final := by
  have isAfter : next ∈ afterOperand := by rcases behind with rfl | rfl <;> decide
  induction identifiers with
  | nil =>
      rcases behind with rfl | rfl
      · exact ⟨nofun, ran⟩
      · cases ran
  | cons root members ih =>
      cases members with
      | nil =>
          obtain ⟨isRoot, ran⟩ := object_of_run _ isAfter ran
          exact ⟨List.forall_mem_singleton.mpr isRoot, ran⟩
      | cons member others =>
          simp only [sourceTokens, List.cons_append] at ran
          obtain ⟨isRoot, ran⟩ := object_of_run _ (by decide) ran
          obtain ⟨areMembers, ran⟩ := ih ran
          exact ⟨List.forall_mem_cons.mpr ⟨isRoot, areMembers⟩, ran⟩

/-- In the header of a condition no comma stands behind a name and its members. -/
theorem ifHeader_rejects (header : state = .ifHeader ∨ state = .ifDot)
    (identifiers : List ASTIdentifier) :
    run state (sourceTokens identifiers ++ .comma :: rest) ≠ some final := by
  intro ran
  induction identifiers generalizing state with
  | nil => rcases header with rfl | rfl <;> cases ran
  | cons root members ih =>
      cases members with
      | nil =>
          have rejects : ∀ word ∈ words, word ∉ [] → run state [word, .comma] = none := by
            rcases header with rfl | rfl <;> decide
          exact List.not_mem_nil (word_of_run rejects ran)
      | cons member others =>
          have rejects : ∀ word ∈ words, word ∉ [.identifier] → run state [word, .dot] = none := by
            rcases header with rfl | rfl <;> decide
          have same : wordToken root = .identifier := identifier_of_run rejects ran
          refine ih (.inr rfl) ?_
          simp only [sourceTokens, List.cons_append, same] at ran
          rcases header with rfl | rfl <;> exact ran

/-- The header of a loop starts with a declaration. -/
theorem forHeader_rejects (identifiers : List ASTIdentifier) :
    run .forHeader (sourceTokens identifiers ++ .comma :: rest) ≠ some final := by
  intro ran
  cases identifiers with
  | nil => cases ran
  | cons root members =>
      have rejects : ∀ next ∈ [.comma, .dot], ∀ word ∈ words, word ∉ [] →
          run .forHeader [word, next] = none := by decide
      cases members with
      | nil => exact List.not_mem_nil (word_of_run (rejects .comma (by decide)) ran)
      | cons member others => exact List.not_mem_nil (word_of_run (rejects .dot (by decide)) ran)

theorem declared_of_run (behind : state = .lead ∨ state = .closeAngle)
    (ran : run state (wordToken name :: .assign :: rest) = some final) :
    IsCppIdentifier name ∧ run .expecting rest = some final := by
  have rejects : ∀ word ∈ words, word ∉ [.identifier] → run state [word, .assign] = none := by
    rcases behind with rfl | rfl <;> decide
  have same : wordToken name = .identifier := identifier_of_run rejects ran
  rw [same] at ran
  rcases behind with rfl | rfl <;> exact ⟨same, ran⟩

theorem returned_of_run (name : StringType) (behind : next ∈ [.semicolon, .lbracket])
    (ran : run .start (.keywordReturn :: wordToken name :: next :: rest) = some final) :
    IsCppIdentifier name ∧ run .returned (next :: rest) = some final := by
  have rejects : ∀ next ∈ [.semicolon, .lbracket], ∀ word ∈ words, word ∉ [.identifier] →
      run .returnKeyword [word, next] = none := by decide
  have ranName : run .returnKeyword (wordToken name :: next :: rest) = some final := ran
  have same : wordToken name = .identifier := identifier_of_run (rejects next behind) ranName
  rw [same] at ranName
  exact ⟨same, ranName⟩

theorem returned_call_of_run (name : StringType)
    (ran : run .start (.keywordReturn :: wordToken name :: .lparen :: rest) = some final) :
    IsCppTypeOrIdentifier name ∧ run .expecting rest = some final := by
  have ranName : run .returnKeyword (wordToken name :: .lparen :: rest) = some final := ran
  have rejects : ∀ word ∈ words, word ∉ [.identifier, .typeKeyword] →
      run .returnKeyword [word, .lparen] = none := by decide
  have isCallable : IsCppTypeOrIdentifier name := typeOrIdentifier_of_run rejects ranName
  refine ⟨isCallable, ?_⟩
  rcases isCallable with same | same <;> rw [same] at ranName <;> exact ranName

end Run

section Names

variable {names : Names} {rest : List Cpp.Token} {final : State}

theorem declaration_of_run {type : DeclType} {name : StringType}
    (ran : run .start (type.tokens names ++ wordToken name :: .assign :: rest) = some final) :
    IsCppTypeOrIdentifier names.typeCls ∧ IsCppIdentifier name ∧ run .expecting rest = some final := by
  cases type with
  | typeClass =>
      simp only [DeclType.tokens, List.cons_append, List.nil_append] at ran
      have rejects : ∀ second ∈ words, ∀ word ∈ words, word ∉ [.identifier, .typeKeyword] →
          run .start [word, second, .assign] = none := by decide
      have isType : IsCppTypeOrIdentifier names.typeCls :=
        typeOrIdentifier_of_run (rejects _ (wordToken_mem_words name)) ran
      have ranName : run .lead (wordToken name :: .assign :: rest) = some final := by
        rcases isType with same | same <;> rw [same] at ran <;> exact ran
      exact ⟨isType, declared_of_run (.inl rfl) ranName⟩
  | vector =>
      obtain ⟨isType, ran⟩ := typeArgument_of_run names.typeCls ran
      exact ⟨isType, declared_of_run (.inr rfl) ran⟩

theorem init_of_run {init : Init}
    (ran : run .expecting (init.tokens names ++ .semicolon :: rest) = some final) :
    init.Meets grammatical names ∧ run .start rest = some final := by
  cases init with
  | proof source =>
      simp only [Init.tokens, List.cons_append, List.append_assoc, List.nil_append] at ran
      obtain ⟨isMethod, ran⟩ := callable_of_run _ ran
      obtain ⟨isSource, ran⟩ := source_of_run (.inl rfl) ran
      exact ⟨⟨isMethod, isSource⟩, ran⟩
  | value expr =>
      obtain ⟨isExpr, ran⟩ := expr_of_run (by decide) ran
      exact ⟨isExpr, ran⟩

theorem fixture_of_run {method : StringType} {source : ASTIdentifiable} {target : Expr}
    (ran : run .start (fixtureTokens method source target ++ rest) = some final) :
    IsCppTypeOrIdentifier method ∧ grammatical.source source ∧ target.Meets grammatical ∧
      run .start rest = some final := by
  simp only [fixtureTokens, List.cons_append, List.append_assoc, List.nil_append] at ran
  have rejects : ∀ word ∈ words, word ∉ [.identifier, .typeKeyword, .keywordIf, .keywordFor] →
      run .start [word, .lparen] = none := by decide
  have wanted := word_of_run rejects ran
  simp only [List.mem_cons, List.not_mem_nil, or_false, ← or_assoc] at wanted
  rcases wanted with (isMethod | same) | same
  · have ranArguments : run .expecting (sourceTokens source.identifiers ++
        .comma :: (target.tokens ++ .rparen :: .semicolon :: rest)) = some final := by
      rcases isMethod with same | same <;> rw [same] at ran <;> exact ran
    obtain ⟨isSource, ranTarget⟩ := source_of_run (.inr rfl) ranArguments
    obtain ⟨isTarget, ranRest⟩ := expr_of_run (by decide) ranTarget
    exact ⟨isMethod, isSource, isTarget, ranRest⟩
  · rw [same] at ran
    exact absurd ran (ifHeader_rejects (.inl rfl) _)
  · rw [same] at ran
    exact absurd ran (forHeader_rejects _)

theorem operand_of_run {operand : Operand}
    (ran : run .expecting (operand.tokens ++ .comma :: rest) = some final) :
    operand.Meets grammatical ∧ run .expecting rest = some final := by
  obtain ⟨expr, counter⟩ := operand
  cases counter with
  | none =>
      obtain ⟨isExpr, ran⟩ := expr_of_run (by decide) ran
      exact ⟨⟨isExpr, nofun⟩, ran⟩
  | some counter =>
      simp only [Operand.tokens, List.append_assoc, List.cons_append, List.nil_append] at ran
      obtain ⟨isExpr, ran⟩ := expr_of_run (by decide) ran
      obtain ⟨isCounter, ran⟩ := object_of_run counter (by decide) ran
      refine ⟨⟨isExpr, fun other same => ?_⟩, ran⟩
      obtain rfl := Option.some.inj same
      exact isCounter

theorem comparison_of_run {comparison : Comparison} (rest : List Cpp.Token)
    (ran : run .expecting (comparison.tokens names ++ rest) = some final) :
    comparison.Meets grammatical names ∧ run .after rest = some final := by
  obtain ⟨lhs, rhs, oprt⟩ := comparison
  simp only [Comparison.tokens, List.cons_append, List.append_assoc, List.nil_append] at ran
  obtain ⟨isMethod, ran⟩ := callable_of_run _ ran
  obtain ⟨isLhs, ran⟩ := operand_of_run ran
  obtain ⟨isRhs, ran⟩ := operand_of_run ran
  cases oprt with
  | none => exact ⟨⟨isMethod, isLhs, isRhs, fun isSome => Bool.noConfusion isSome⟩, ran⟩
  | some oprt =>
      obtain ⟨isType, ran⟩ := typeArgument_of_run names.typeCls ran
      exact ⟨⟨isMethod, isLhs, isRhs, fun _ => isType⟩, ran⟩

theorem value_of_run {value : Expr}
    (ran : run .start (.keywordReturn :: (value.tokens ++ .semicolon :: rest)) = some final) :
    value.Meets grammatical ∧ run .start rest = some final := by
  cases value with
  | ident name => exact returned_of_run _ (by decide) ran
  | element name index =>
      obtain ⟨isObject, ran⟩ := returned_of_run name (by decide) ran
      exact ⟨isObject, ran⟩
  | call name arguments =>
      simp only [Expr.tokens, List.cons_append, List.append_assoc, List.nil_append] at ran
      obtain ⟨isCallable, ran⟩ := returned_call_of_run name ran
      obtain ⟨areArguments, ran⟩ := exprs_of_run _ ran
      exact ⟨⟨isCallable, areArguments⟩, ran⟩
  | deref name =>
      obtain ⟨isObject, ran⟩ := object_of_run name (by decide) ran
      exact ⟨isObject, ran⟩

mutual
theorem stmt_of_run {stmt : Stmt} {rest : List Cpp.Token}
    (ran : run .start (stmt.tokens names ++ rest) = some final) :
    stmt.Meets grammatical names ∧ run .start rest = some final := by
  cases stmt with
  | blank | comment => exact ⟨trivial, ran⟩
  | declare type name init =>
      simp only [Stmt.tokens, List.append_assoc, List.cons_append, List.nil_append] at ran
      obtain ⟨isType, isName, ran⟩ := declaration_of_run ran
      obtain ⟨isInit, ran⟩ := init_of_run ran
      exact ⟨⟨isType, isName, isInit⟩, ran⟩
  | setup source target | teardown source target =>
      obtain ⟨isMethod, isSource, isTarget, ran⟩ := fixture_of_run ran
      exact ⟨⟨isMethod, isSource, isTarget⟩, ran⟩
  | ifNot comparison body =>
      simp only [Stmt.tokens, List.append_assoc, List.cons_append, List.nil_append] at ran
      obtain ⟨isComparison, ran⟩ := comparison_of_run _ ran
      obtain ⟨isBody, ran⟩ := stmts_of_run body _ ran
      exact ⟨⟨isComparison, isBody⟩, ran⟩
  | forRange lhsIdx rhsIdx bound body =>
      -- The recogniser stops at the name of the second counter, behind its type.
      have rejected : run .start ((Stmt.forRange lhsIdx rhsIdx bound body).tokens names ++ rest) = none :=
        rfl
      rw [rejected] at ran
      cases ran
  | setError value => exact ⟨trivial, ran⟩
  | returnDefault => exact returned_call_of_run names.typeCls ran
  | returnValue value =>
      simp only [Stmt.tokens, List.append_assoc, List.cons_append, List.nil_append] at ran
      exact value_of_run ran

theorem stmts_of_run (stmts : List Stmt) (rest : List Cpp.Token)
    (ran : run .start (Stmt.tokensList names stmts ++ rest) = some final) :
    Stmt.MeetsList grammatical names stmts ∧ run .start rest = some final := by
  cases stmts with
  | nil => exact ⟨trivial, ran⟩
  | cons head tail =>
      simp only [Stmt.tokensList, List.append_assoc] at ran
      obtain ⟨isHead, ran⟩ := stmt_of_run ran
      obtain ⟨areTail, ran⟩ := stmts_of_run _ _ ran
      exact ⟨⟨isHead, areTail⟩, ran⟩
end

/-- A list of emitted statements is derivable exactly if the grammar has a place
for all that is in it. -/
theorem statements_tokensList_iff {stmts : List Stmt} (isSpelled : Stmt.MeetsList spelled names stmts) :
    Statements (Stmt.tokensList names stmts) ↔ Stmt.MeetsList grammatical names stmts := by
  constructor
  · intro derivable
    have ran := Cpp.run_statements derivable
    rw [← List.append_nil (Stmt.tokensList names stmts)] at ran
    exact (stmts_of_run stmts [] ran).1
  · exact statements_tokensList isSpelled

end Names

end Emitted

end Snowlake
